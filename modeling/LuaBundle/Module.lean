import LuaBundle.Path

/-!
# Modules

A `Module` is a file that some `require` leads to.  Its path is its identity; the name it was first
required by is its import name, and other names for the same path are its aliases.

`importPath` says which file an import name stands for: every dot of the name is a slash, the
extension follows after one more dot, and empty pieces do not count.  `Path.stem` names the entry
module, which is required by nobody.
-/

set_option autoImplicit false

namespace LuaBundle

/-- A file that a `require` leads to. -/
structure Module where
  /-- The name of the first `require` that reached the file. -/
  name : String
  /-- Other names of the file, in the order in which they were met. -/
  aliases : List String := []
  path : Path
  /-- The text of the file; there is none when the file is not part of the project. -/
  source? : Option String := none
  /-- The paths that the file requires, without repetition. -/
  requires : List Path := []
  deriving DecidableEq, Repr

namespace Module

/-- Whether the module's file is part of the project. -/
def isLocal (m : Module) : Bool :=
  m.source?.isSome

/-- The text of the module's file, empty when there is none. -/
def source (m : Module) : String :=
  m.source?.getD ""

/-- All names of a module, its import name first. -/
def names (m : Module) : List String :=
  m.name :: m.aliases

end Module

/-- The pieces of the file that an import name stands for, from the base directory on. -/
def importPieces (name extension : String) : List (List Char) :=
  let slashed := name.toList.map (fun c => if c = '.' then '/' else c)
  (Text.segments (· == '/') (slashed ++ '.' :: extension.toList)).filter (!·.isEmpty)

/-- The file that an import name stands for below a base directory. -/
@[irreducible]
def importPath (base : Path) (name extension : String) : Path :=
  ((importPieces name extension).foldl (fun dir piece => dir.child (String.ofList piece)) base).normalize

end LuaBundle
