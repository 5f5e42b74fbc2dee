import LuaBundle.Bundle
import LuaBundle.FileSystem.Disk
import LuaBundle.Project

/-!
# Bundling a project

A run resolves the project of an entry file, bundles its modules, and may write the bundle to a
disk.
-/

set_option autoImplicit false

namespace LuaBundle

/-- Why a run failed.  The path is the one that the run was asked for. -/
inductive RunFault where
  | resolving (entry : Path) (cause : ProjectFault)
  | bundling (entry : Path) (cause : Bundle.Fault)
  deriving DecidableEq, Repr

namespace RunFault

/-- The reasons of a failure, the outermost first. -/
def chain : RunFault → List String
  | resolving entry cause => s!"Failed to resolve project {entry.text}" :: cause.chain
  | bundling entry cause => s!"Failed to bundle {entry.text}" :: cause.chain

/-- The error of a file that caused the failure, if one did. -/
def fileError? : RunFault → Option FileError
  | resolving _ cause => cause.fileError?
  | bundling .. => none

end RunFault

/-- What a run makes. -/
structure Run where
  project : Project
  bundle : Bundle
  deriving Repr

namespace Run

/-- The size of the entry file in bytes. -/
def entrySize (r : Run) : Nat :=
  (r.project.entry?.map (·.source.utf8ByteSize)).getD 0

/-- Resolves the project of an entry file. -/
def resolve (files : FileSystem) (settings : Settings) (entry : Path) :
    Logged RunFault Project := do
  Logged.note (.resolving entry)
  (Project.resolve files settings entry).mapError (.resolving entry)

/-- Resolves and bundles the project of an entry file. -/
def ofEntry (files : FileSystem) (settings : Settings) (entry : Path) : Logged RunFault Run := do
  let project ← resolve files settings entry
  let bundle ← (Bundle.ofModules settings.bundle project.modules).mapError (.bundling entry)
  Logged.note (.bundled bundle.moduleCount)
  if !project.skipped.isEmpty then
    Logged.note (.leftOut project.skipped)
  return { project, bundle }

end Run

/-- Why a bundle could not be written. -/
inductive WriteFault where
  | directory (path : Path) (error : FileError)
  | file (path : Path) (error : FileError)
  deriving DecidableEq, Repr

namespace WriteFault

/-- The reasons of a failure, the outermost first. -/
def chain : WriteFault → List String
  | directory path error => [s!"Failed to create directory {path.text}", error.text]
  | file path error => [s!"Failed to write bundle to {path.text}", error.text]

def fileError : WriteFault → FileError
  | directory _ error | file _ error => error

end WriteFault

/-- Writes the text of a bundle to a disk, after making the directories on the way to it.  The
directories stay when the file cannot be written. -/
def Bundle.writeTo (b : Bundle) (output : Path) (d : Disk) : Disk × Logged WriteFault Unit :=
  let parent := output.parent?.getD ⟨""⟩
  let (d, failure?) := if parent.text.isEmpty then (d, none) else d.makeDirectories parent
  match failure? with
  | some e => (d, Logged.fail (.directory parent e))
  | none =>
    match d.write output b.source.toUTF8 with
    | .error e => (d, Logged.fail (.file output e))
    | .ok d => (d, Logged.note (.written b.source.utf8ByteSize output))

end LuaBundle
