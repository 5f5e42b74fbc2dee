import LuaBundle.Settings.Layer

/-!
# Settings

What a user can choose: the extension of Lua files, whether circles of requires are an error, and
the shape of the bundle.
-/

set_option autoImplicit false

namespace LuaBundle

/-- The shape of a bundle. -/
structure BundleStyle where
  /-- The Lua expression of the table that holds the values of loaded modules. -/
  cacheTable : String := "_G.package.loaded"
  /-- What the names of wrapper functions begin with. -/
  functionPrefix : String := "_loaded_mod_"
  /-- Whether a comment names the module above each wrapper. -/
  moduleHeaders : Bool := true
  deriving DecidableEq, Repr

/-- All that a user can choose. -/
structure Settings where
  /-- The extension of the files that import names stand for; leading dots do not count. -/
  extension : String := "lua"
  /-- Whether a circle of requires is an error. -/
  strictCycles : Bool := false
  bundle : BundleStyle := {}
  deriving DecidableEq, Repr

/-- The extension without leading dots. -/
def Settings.bareExtension (s : Settings) : String :=
  String.ofList (s.extension.toList.dropWhile (· == '.'))

end LuaBundle
