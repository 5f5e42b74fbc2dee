/-!
# Layers of settings

Settings come from up to three files.  A later layer overrides the keys that it sets.
-/

set_option autoImplicit false

namespace LuaBundle

/-- Where a file of settings comes from, from the weakest layer to the strongest. -/
inductive Layer where
  /-- The file in the user's configuration directory. -/
  | user
  /-- The file beside the entry file. -/
  | project
  /-- A file named on the command line. -/
  | explicit
  deriving DecidableEq, Repr

end LuaBundle
