import LuaBundle.Project.Walk
import LuaBundle.Settings

/-!
# Projects

A project is what a walk from an entry file finds: the local modules in the order in which they can
be loaded, the entry last, the names that stand for no local file, and the circles of requires.

* `Project.ofWalk` reads the project off a finished walk.
* `Project.resolve` checks the entry file, walks from it and reports the circles.
-/

set_option autoImplicit false

namespace LuaBundle

/-- Modules in loading order. -/
structure Project where
  /-- The directory that import names start from. -/
  base : Path
  /-- The local modules, what is required before what requires it, the entry last. -/
  modules : List Module
  /-- The names that stand for no local file. -/
  skipped : List String
  /-- The circles of requires among the modules. -/
  cycles : List (List Path)
  deriving Repr

/-- Why a project could not be resolved. -/
inductive ProjectFault where
  | entryMissing (entry : Path)
  | entryNotFile (entry : Path)
  | unreadable (failure : ReadFailure)
  | circular (members : List Path)
  deriving DecidableEq, Repr

/-- The reasons of a failure, the outermost first. -/
def ProjectFault.chain : ProjectFault → List String
  | entryMissing entry => [s!"Entry file not found: {entry.text}"]
  | entryNotFile entry => [s!"Entry path is not a file: {entry.text}"]
  | unreadable failure => failure.chain
  | circular members => [s!"Circular require detected: {cycleText members}"]

/-- The error of a file that caused the failure, if one did. -/
def ProjectFault.fileError? : ProjectFault → Option FileError
  | unreadable failure => some failure.error
  | _ => none

namespace Project

def entry? (p : Project) : Option Module :=
  p.modules.getLast?

def size (p : Project) : Nat :=
  p.modules.length

/-- The requires between the modules of a project. -/
def graph (p : Project) : RequireGraph :=
  RequireGraph.ofModules p.modules

/-- The paths of the modules, in loading order. -/
def order (p : Project) : List Path :=
  p.modules.map (·.path)

/-- What a walk found: of the finished paths, the local modules in the order in which they were
finished, and the names of the others. -/
def ofWalk (base : Path) (w : Walk) : Project :=
  let found := w.finished.filterMap w.module?
  let modules := found.filter (·.isLocal)
  let graph := RequireGraph.ofModules modules
  { base, modules
    skipped := (found.filter (!·.isLocal)).flatMap (·.names)
    cycles := if graph.hasCycle then graph.cycles else [] }

/-- What stays the same in the walk from an entry file, whose path is normal: import names start
from the entry's directory. -/
def scope (files : FileSystem) (settings : Settings) (entry : Path) : Scope where
  files
  base := entry.parent?.getD ⟨""⟩
  extension := settings.bareExtension

/-- The walk that finds the project of an entry file, whose path is normal. -/
def walk (files : FileSystem) (settings : Settings) (entry : Path) : Walk × Option ReadFailure :=
  Walk.visit (scope files settings entry) entry.stem entry {}

/-- The project of an entry file. -/
def resolve (files : FileSystem) (settings : Settings) (entry : Path) :
    Logged ProjectFault Project := do
  let entry := entry.normalize
  if !files.has entry then
    Logged.fail (.entryMissing entry)
  else if !files.isFile entry then
    Logged.fail (.entryNotFile entry)
  else
    let (w, failure?) := walk files settings entry
    Logged.noteAll w.notices
    match failure? with
    | some failure => Logged.fail (.unreadable failure)
    | none =>
      let project := ofWalk (scope files settings entry).base w
      if !project.entry?.any (fun m => decide (m.path ≈ entry)) then
        Logged.fail (.entryMissing entry)
      else
        Logged.noteAll (project.cycles.map .cycle)
        match settings.strictCycles, project.cycles with
        | true, members :: _ => Logged.fail (.circular members)
        | _, _ =>
          Logged.note (.resolved project.size project.skipped.length)
          return project

end Project

end LuaBundle
