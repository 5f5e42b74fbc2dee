import LuaBundle.CommandLine.Outcome
import LuaBundle.Settings.Account

/-!
# The program

The outer layer of the command line.  `Outcome.ofArguments` decides everything on a disk that is
held in memory; here that disk is filled from the real one, and what it became is written back.

Only what a run looks at is read: the run is worked out on what is known of the disk, the places
that it looked at are read, and this is repeated until nothing new turns up.
-/

set_option autoImplicit false

namespace LuaBundle.Program

open CommandLine

/-- The file name of a place. -/
def fileName (loc : Disk.Location) : String :=
  "/" ++ "/".intercalate loc

/-- What is at a place of the real disk.  What cannot be read counts as an empty file. -/
def probe (loc : Disk.Location) : IO (Option Disk.Node) := do
  let file := (← IO.currentDir) / fileName loc
  if ← file.isDir then
    return some .directory
  else if ← file.pathExists then
    let content ← try IO.FS.readBinFile file catch _ => pure ByteArray.empty
    return some (.file content)
  else
    return none

/-- The places on the way that a path takes from the working directory. -/
def placesOf (workingDirectory : Disk.Location) (p : Path) : List Disk.Location :=
  let rec go (loc : Disk.Location) : List Step → List Disk.Location
    | [] => []
    | step :: rest => Disk.lead loc step :: go (Disk.lead loc step) rest
  go workingDirectory p.steps

/-- Reads the places that are not known yet; gives the disk with them, and all that is known. -/
def learn (d : Disk) (known : List Disk.Location) :
    List Disk.Location → IO (Disk × List Disk.Location)
  | [] => return (d, known)
  | loc :: rest => do
    if known.contains loc then
      learn d known rest
    else
      match ← probe loc with
      | some n => learn (if loc.isEmpty then d else d.put loc n) (loc :: known) rest
      | none => learn d (loc :: known) rest

/-- Reads all places that a run looks at. -/
partial def observe (job : Job) (env : Environment) (d : Disk) (known : List Disk.Location) :
    IO Disk := do
  let places := (job.consulted env d).flatMap (placesOf d.workingDirectory)
  let (d, learned) ← learn d known places
  if learned.length = known.length then return d else observe job env d learned

/-- Writes what became of a disk back to the real one. -/
def commit (before after : Disk) : IO Unit := do
  for (loc, n) in after.nodes do
    if before.node? loc ≠ some n then
      match n with
      | .directory => IO.FS.createDir (fileName loc)
      | .file content => IO.FS.writeBinFile (fileName loc) content

/-- The home directory of the account that runs the program, if the machine tells it. -/
def accountHome? : IO (Option String) := do
  try
    match Account.running? (← IO.FS.readFile "/proc/self/status") with
    | some number => return Account.home? (← IO.FS.readFile "/etc/passwd") number
    | none => return none
  catch _ => return none

/-- What decides where the user's settings are. -/
def environment : IO Environment := do
  return {
    settingsDirectory? := ← IO.getEnv "AOPACK_CONFIG_DIR"
    configHome? := ← IO.getEnv "XDG_CONFIG_HOME"
    home? := ← IO.getEnv "HOME"
    accountHome? := ← accountHome? }

/-- The working directory, with nothing known but the way to it. -/
def initialDisk : IO Disk := do
  let steps := (Path.mk (← IO.currentDir).toString).steps
  return Disk.empty (steps.filterMap fun s =>
    match s with
    | .name n => some n
    | _ => none)

/-- Carries out a call of the program. -/
def perform (args : List String) : IO UInt32 := do
  let env ← environment
  let start ← initialDisk
  let d ←
    match Request.ofArguments args with
    | .run job => observe job env start (start.nodes.map (·.1))
    | _ => pure start
  let outcome := Outcome.ofArguments args env d
  commit d outcome.disk
  IO.print outcome.stdout
  IO.eprint outcome.stderr
  return UInt32.ofNat outcome.code

end LuaBundle.Program

/-- Bundles a Lua project as its arguments say. -/
def main (args : List String) : IO UInt32 :=
  LuaBundle.Program.perform args
