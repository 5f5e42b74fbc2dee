import LuaBundle.Toml.Value

/-!
# Tables under construction

While a document is read, it matters how each table came about: a table may be opened by one header
only, dotted keys may add only to tables that dotted keys made, and nothing adds to an inline table.
A `Node` keeps that.

* `addValue` puts a value at a dotted key below a table.
* `openTable` and `openElement` do what a header does: they open a table, or one more element of an
  array of tables.
* `updateAt` works below the table of a header.
-/

set_option autoImplicit false

namespace LuaBundle.Toml

/-- How a table came about. -/
inductive Origin where
  /-- By its own header, or as the document itself. -/
  | header
  /-- On the way to a table with a header. -/
  | implied
  /-- By a dotted key. -/
  | dotted
  deriving DecidableEq, Repr

/-- What stands under a key while a document is read. -/
inductive Node where
  /-- A value that holds no others. -/
  | value (v : Value)
  /-- A number that is too large. -/
  | outOfRange
  | array (items : List Node)
  | inline (entries : List (String × Node))
  | table (origin : Origin) (entries : List (String × Node))
  /-- An array of tables, the last element first. -/
  | tables (elements : List (List (String × Node)))
  deriving Repr

/-- What stands under the keys of a table. -/
abbrev Entries := List (String × Node)

namespace Entries

def get? (es : Entries) (key : String) : Option Node :=
  (es.find? (·.1 == key)).map (·.2)

/-- Sets what stands under a key. -/
def set (key : String) (n : Node) : Entries → Entries
  | [] => [(key, n)]
  | (k, m) :: rest => if k = key then (k, n) :: rest else (k, m) :: set key n rest

end Entries

/-! ## Adding to a table -/

/-- Puts a value at a dotted key below a table of the given origin. -/
def addValue (n : Node) : List String → Origin → Bool → Entries → Option Entries
  | [], _, _, _ => none
  | [key], origin, nested, es =>
    if (es.get? key).isSome ∨ (nested ∧ origin ≠ .dotted) then none
    else some (es.set key n)
  | key :: rest, _, _, es =>
    match es.get? key with
    | none => do return es.set key (.table .dotted (← addValue n rest .dotted true []))
    | some (.table .header _) => none
    | some (.table origin below) => do
      return es.set key (.table origin (← addValue n rest origin true below))
    | some (.tables (last :: before)) => do
      return es.set key (.tables ((← addValue n rest .header true last) :: before))
    | some _ => none

/-- Changes the table that a header names, making the tables on the way to it. -/
def updateAt (f : Entries → Option Entries) : List String → Entries → Option Entries
  | [], es => f es
  | key :: rest, es =>
    match es.get? key with
    | none => do return es.set key (.table .implied (← updateAt f rest []))
    | some (.table origin below) => do return es.set key (.table origin (← updateAt f rest below))
    | some (.tables (last :: before)) => do
      return es.set key (.tables ((← updateAt f rest last) :: before))
    | some _ => none

/-- Opens a table under a key.  Only a table on the way to another can be there already. -/
def openTable (key : String) (es : Entries) : Option Entries :=
  match es.get? key with
  | none => some (es.set key (.table .header []))
  | some (.table .implied below) => some (es.set key (.table .header below))
  | some _ => none

/-- Opens one more element of the array of tables under a key. -/
def openElement (key : String) (es : Entries) : Option Entries :=
  match es.get? key with
  | none => some (es.set key (.tables [[]]))
  | some (.tables elements) => some (es.set key (.tables ([] :: elements)))
  | some _ => none

/-- Opens what a header names: an element of an array of tables, or a table. -/
def openHeader (isElement : Bool) (path : List String) (es : Entries) : Option Entries :=
  match path.getLast? with
  | none => none
  | some key => updateAt (if isElement then openElement key else openTable key) path.dropLast es

end LuaBundle.Toml
