import LuaBundle.Bundle
import LuaBundle.Project

/-!
# The list of modules

A listing shows, line by line, the names of a project in the order in which a bundle provides them,
each with its file, its identifier and what the file requires; then the names that stand for no
local file, and the circles of requires.
-/

set_option autoImplicit false

namespace LuaBundle.CommandLine

/-- A number with blanks before it, at least three characters wide. -/
def rightAligned (n : Nat) : String :=
  let ds := Nat.toDigits 10 n
  String.ofList (List.replicate (3 - ds.length) ' ' ++ ds)

/-- What follows a name that is not provided by a wrapper. -/
def marker : RecordKind → String
  | .wrapped => ""
  | .alias => " (alias)"
  | .entry => " (entry)"

/-- The line of a record; `requires` are the modules that its file requires. -/
def recordLine (position : Nat) (r : Record) (requires : List Path) : String :=
  let requiresText :=
    if r.kind == .alias || requires.isEmpty then ""
    else " requires " ++ ", ".intercalate (requires.map Path.text)
  s!"{rightAligned position}. {r.name}{marker r.kind} -> {r.path.text} [{r.identifier}]" ++
    requiresText ++ "\n"

/-- The lines of some records, numbered from a position on. -/
def recordLines (project : Project) (graph : RequireGraph) : Nat → List Record → List String
  | _, [] => []
  | position, r :: rest =>
    let requires := (graph.dependencies r.path).map (·.relativeTo project.base)
    recordLine position r requires :: recordLines project graph (position + 1) rest

/-- The list of the modules of a project. -/
def listing (project : Project) (bundle : Bundle) : String :=
  "".intercalate (recordLines project project.graph 1 bundle.records) ++
    "".intercalate (project.skipped.map fun name => s!"  -  {name} (not local)\n") ++
    "".intercalate (project.cycles.map fun members =>
      "  !  cycle: " ++ " -> ".intercalate (members.map Path.text) ++ "\n")

end LuaBundle.CommandLine
