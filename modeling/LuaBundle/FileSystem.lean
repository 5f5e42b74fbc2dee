import LuaBundle.Path

/-!
# File systems, as the discovery of modules sees them

A `FileSystem` answers three questions about a path: is anything there, is it a file, and what
does it hold.  Nothing ties the answers together, and many paths may lead to one file; but only
finitely many texts are there to be read.  This is what bounds a walk that follows paths found
inside of files.  It loses nothing: a walk that ends has read finitely many texts, and goes the same
way in the file system that has only those.

`FileSystem.withErrors` makes the reading of some paths fail.
-/

set_option autoImplicit false

namespace LuaBundle

/-- Why an operation on a file failed. -/
inductive FileErrorKind where
  | notFound
  | notADirectory
  | isADirectory
  | alreadyExists
  | permissionDenied
  | invalidData
  | invalidInput
  | invalidFilename
  | other
  deriving DecidableEq, Repr

/-- A failed operation on a file, with the text that reports it. -/
structure FileError where
  kind : FileErrorKind
  text : String
  deriving DecidableEq, Repr

/-- Whether a file could not be read because there is no such file: nothing is there, or the path
runs through a file. -/
def FileError.isMissing (e : FileError) : Bool :=
  e.kind == .notFound || e.kind == .notADirectory

/-- What can be found at paths. -/
structure FileSystem where
  /-- Whether anything is at a path. -/
  has : Path → Bool
  /-- Whether a regular file is at a path. -/
  isFile : Path → Bool
  /-- The text of the file at a path. -/
  read : Path → Except FileError String
  finite : ∃ texts : List String, ∀ {p : Path} {text : String}, read p = .ok text → text ∈ texts

namespace FileSystem

/-- The file system in which the reading of the listed paths fails.  The first entry for a path
counts. -/
def withErrors (fs : FileSystem) (errors : List (Path × FileError)) : FileSystem where
  has := fs.has
  isFile := fs.isFile
  read p :=
    match errors.find? (fun e => decide (e.1 ≈ p)) with
    | some (_, e) => .error e
    | none => fs.read p
  finite := by
    obtain ⟨texts, h⟩ := fs.finite
    refine ⟨texts, fun {p text} hr => ?_⟩
    split at hr
    · simp at hr
    · exact h hr

end FileSystem

end LuaBundle
