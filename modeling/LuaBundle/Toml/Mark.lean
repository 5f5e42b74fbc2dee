import LuaBundle.Toml.Moment
import LuaBundle.Toml.Tree

/-!
# Finished tables and marked tables

`entriesToTable?` makes the table of a document from what was read.  A date or a time can also be
given by a table: one whose first key is `momentMark` stands for the moment that the text under that
key spells.

* A document is refused in which a marked table spells no moment, or a number is out of range.
* The other entries of a marked table are not looked at.
* The table of the document itself is never a moment.
-/

set_option autoImplicit false

namespace LuaBundle.Toml

/-- The key that marks a table as a date or time. -/
def momentMark : String := "$__toml_private_datetime"

/-- What the mark of a table holds, if the table is marked. -/
def mark? (entries : Entries) : Option Node :=
  if entries.all (fun e => decide (momentMark ≤ e.1)) then entries.get? momentMark else none

/-- The moment that a node spells. -/
def spelledMoment? : Node → Option Value
  | .value (.string text) => (Moment.ofChars? text.toList).map (.moment ·.text)
  | _ => none

/-- What a table stands for, given the table that its entries make. -/
def tableValue? (entries : Entries) (made? : Option Table) : Option Value :=
  match mark? entries with
  | some n => spelledMoment? n
  | none => made?.map .table

mutual

/-- The value that a node stands for. -/
def Node.toValue? : Node → Option Value
  | .value v => some v
  | .outOfRange => none
  | .array items => (itemsToValues? items).map .array
  | .inline entries | .table _ entries => tableValue? entries (entriesToTable? entries)
  | .tables elements => (elementsToValues? elements).map .array

/-- The values of the items of an array. -/
def itemsToValues? : List Node → Option (List Value)
  | [] => some []
  | n :: rest => do return (← n.toValue?) :: (← itemsToValues? rest)

/-- The table that some entries make. -/
def entriesToTable? : List (String × Node) → Option Table
  | [] => some []
  | (key, n) :: rest => do return (← entriesToTable? rest).insert key (← n.toValue?)

/-- The elements of an array of tables, the first element first. -/
def elementsToValues? : List (List (String × Node)) → Option (List Value)
  | [] => some []
  | entries :: rest => do
    return (← elementsToValues? rest) ++ [← tableValue? entries (entriesToTable? entries)]

end

end LuaBundle.Toml
