import LuaBundle.Lua.Literal

/-!
# Names in generated Lua

An import name is any text; a function needs a name of letters, digits and underscores.
`identifierOf` makes the one from the other, and different import names may get the same
identifier.
-/

set_option autoImplicit false

namespace LuaBundle.Lua

/-- Replaces every character that a name cannot hold by an underscore. -/
def underscored (cs : List Char) : List Char :=
  cs.map (fun c => if isNameChar c then c else '_')

/-- The identifier of an import name: its characters with underscores for all that a name cannot
hold, and without one underscore at the start. -/
def identifierOf (name : String) : String :=
  match underscored name.toList with
  | '_' :: rest => String.ofList rest
  | cs => String.ofList cs

/-- Whether a text begins like a name and holds only characters of names. -/
def isIdentifier (s : String) : Bool :=
  match s.toList with
  | [] => false
  | c :: rest => (c.isAlpha || c == '_') && rest.all isNameChar

end LuaBundle.Lua
