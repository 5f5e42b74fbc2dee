import LuaBundle.Decimal.Double

/-!
# TOML values

A `Table` keeps its entries sorted by key, one entry for a key.  `Table.insert` keeps that order,
and `Table.merge` lays one table over another: where both hold a table under a key the two are
merged, and otherwise the overlay's value counts.
-/

set_option autoImplicit false

namespace LuaBundle.Toml

/-- A value of a TOML document.  A date or time is held as its text. -/
inductive Value where
  | string (text : String)
  | integer (n : Int)
  | float (x : Decimal.Double)
  | boolean (b : Bool)
  | moment (text : String)
  | array (items : List Value)
  | table (entries : List (String × Value))
  deriving Repr

/-- Keys with their values, sorted by key. -/
abbrev Table := List (String × Value)

namespace Table

/-- The value of a key. -/
def get? (t : Table) (key : String) : Option Value :=
  (t.find? (·.1 == key)).map (·.2)

/-- Sets the value of a key. -/
def insert (key : String) (v : Value) : Table → Table
  | [] => [(key, v)]
  | (k, w) :: rest =>
    if key = k then (key, v) :: rest
    else if key < k then (key, v) :: (k, w) :: rest
    else (k, w) :: insert key v rest

/-- Lays the entries of a table over another table. -/
def merge (base : Table) : Table → Table
  | [] => base
  | (key, v) :: rest =>
    let merged : Value :=
      match base.get? key, v with
      | some (.table below), .table above => .table (merge below above)
      | _, v => v
    merge (base.insert key merged) rest

end Table

end LuaBundle.Toml
