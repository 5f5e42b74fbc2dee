import LuaBundle.CommandLine.Arguments
import LuaBundle.CommandLine.Listing
import LuaBundle.Run
import LuaBundle.Settings.Sources
import LuaBundle.Text.Plain

/-!
# What the command line does

`Outcome.ofArguments` is all that a call of the program does: it takes the disk, the environment and
the arguments to an exit code, two texts to print and the disk afterwards.

* `Job.perform` is the run itself, with the notices it gives.
* `reportText` is how a failure is printed: its outermost reason, and below it the others.
* `Job.consulted` lists the paths that a run looks at, so that it is enough to know the disk at
  these.
-/

set_option autoImplicit false

namespace LuaBundle.CommandLine

/-- Why a run of the command line failed. -/
inductive Failure where
  | settings (cause : SettingsFault)
  | run (cause : RunFault)
  | listing (cause : Bundle.Fault)
  | writing (cause : WriteFault)
  deriving Repr

/-- The reasons of a failure, the outermost first. -/
def Failure.chain : Failure → List String
  | settings cause => cause.chain
  | run cause => cause.chain
  | listing cause => cause.chain
  | writing cause => cause.chain

/-! ## Printing failures -/

/-- The lines of a text, without their line breaks. -/
def linesOf (s : String) : List (List Char) :=
  Text.segments (· == '\n') s.toList

/-- A reason under a heading: the heading stands before its first line, blanks before the others. -/
def reasonText (heading blanks reason : String) : String :=
  match linesOf reason with
  | [] => heading
  | first :: rest =>
    heading ++ ("\n" ++ blanks).intercalate ((first :: rest).map String.ofList)

/-- The reasons below the outermost one, numbered if there are several. -/
def causesText (causes : List String) : List String :=
  match causes with
  | [cause] => [reasonText "    " "    " cause]
  | causes =>
    causes.mapIdx fun i cause => reasonText ("  " ++ rightAligned i ++ ": ") "       " cause

/-- How a failure is printed. -/
def reportText (chain : List String) : String :=
  match chain with
  | [] => ""
  | [reason] => "Error: " ++ reason ++ "\n"
  | reason :: causes =>
    "Error: " ++ reason ++ "\n\nCaused by:\n" ++ "\n".intercalate (causesText causes) ++ "\n"

/-! ## Printing notices -/

/-- The least important notices that are shown. -/
def shownLevel (verbosity : Nat) : Level :=
  match verbosity with
  | 0 => .info
  | 1 => .debug
  | _ => .trace

/-- The name of a level, five characters wide. -/
def levelName (l : Level) : String :=
  String.ofList (l.name.toList ++ List.replicate (5 - l.name.length) ' ')

/-- The line of a notice.  Its topic is shown only when all notices are, and if its text has
several lines, those after the first begin with blanks. -/
def noticeLine (verbosity : Nat) (n : Notice) : String :=
  let topic := if verbosity > 1 then " " ++ n.topic.label else ""
  let heading := "[" ++ levelName n.level ++ topic ++ "] "
  Text.plain (reasonText heading "    " n.text ++ "\n")

def noticesText (verbosity : Nat) (ns : List Notice) : String :=
  "".intercalate ((ns.filter (·.level.isShown (shownLevel verbosity))).map (noticeLine verbosity))

/-! ## The run -/

namespace Job

/-- The files of settings of a run.  An entry without a directory has no settings of its own, and
neither has a user for whom there is no place. -/
def settingsFiles (job : Job) (env : Environment) : SettingsFiles where
  user? := env.userFile.toOption
  projectDirectory? := job.entry.parent?.filter (!·.text.isEmpty)
  explicit? := job.config?

/-- The settings of a run. -/
def settings (job : Job) (env : Environment) (d : Disk) : Logged Failure Settings := do
  let s ← (Settings.load d (job.settingsFiles env)).mapError .settings
  return { s with strictCycles := s.strictCycles || job.strictCycles }

/-- Lists the modules of a project. -/
def list (job : Job) (s : Settings) (d : Disk) : Logged Failure String := do
  let project ← (Run.resolve d.toFileSystem s job.entry).mapError .run
  let bundle ← (Bundle.ofModules s.bundle project.modules).mapError .listing
  return listing project bundle

/-- Bundles a project. -/
def bundle (job : Job) (s : Settings) (d : Disk) : Logged Failure Run := do
  let run ← (Run.ofEntry d.toFileSystem s job.entry).mapError .run
  Logged.note (.entrySize run.entrySize)
  Logged.note (.projectSize run.project.size)
  return run

/-- The settings of a run, and the notice with which it begins. -/
def start (job : Job) (env : Environment) (d : Disk) : Logged Failure Settings := do
  let s ← job.settings env d
  Logged.note (.entryFile job.entry)
  return s

/-- What a run prints, and the disk after it. -/
def perform (job : Job) (env : Environment) (d : Disk) : Disk × Logged Failure String :=
  match job.mode with
  | .list => (d, do job.list (← job.start env d) d)
  | .stdout => (d, do return (← job.bundle (← job.start env d) d).bundle.source ++ "\n")
  | .output file =>
    let made := do job.bundle (← job.start env d) d
    match made.result with
    | .error e => (d, ⟨.error e, made.notices⟩)
    | .ok run =>
      let (d, written) := run.bundle.writeTo file d
      (d, do
        Logged.noteAll made.notices
        written.mapError .writing
        return "")

/-- The paths that a run looks at on a disk. -/
def consulted (job : Job) (env : Environment) (d : Disk) : List Path :=
  let files := (job.settingsFiles env).layers.map (·.2)
  let entry := job.entry.normalize
  let read :=
    match (job.settings env d).result with
    | .error _ => []
    | .ok s => (Project.walk d.toFileSystem s entry).1.entered
  let written :=
    match job.mode with
    | .output file => Disk.ancestors (file.pieces.length + 1) file
    | _ => []
  files ++ entry :: read ++ written

end Job

/-! ## The program -/

/-- All that a call of the program does. -/
structure Outcome where
  code : Nat
  stdout : String := ""
  stderr : String := ""
  /-- The disk afterwards. -/
  disk : Disk

/-- What the program prints when it is asked for its version. -/
def versionText : String := "aopack 0.1.0\n"

/-- What the program prints when it is asked for help or does not understand its arguments. -/
def usageText : String :=
  "Usage: aopack --entry <ENTRY> <--output <OUTPUT>|--stdout|--list> [--config <CONFIG>] " ++
    "[--strict-cycles] [--verbose]\n"

/-- What a run does. -/
def Outcome.ofJob (job : Job) (env : Environment) (d : Disk) : Outcome :=
  let (disk, printed) := job.perform env d
  let notices := noticesText job.verbosity printed.notices
  match printed.result with
  | .ok stdout => { code := 0, stdout, stderr := notices, disk }
  | .error e => { code := 1, stderr := notices ++ reportText e.chain, disk }

/-- What a call of the program does. -/
def Outcome.ofArguments (args : List String) (env : Environment) (d : Disk) : Outcome :=
  match Request.ofArguments args with
  | .run job => ofJob job env d
  | .version => { code := 0, stdout := versionText, disk := d }
  | .help => { code := 0, stdout := usageText, disk := d }
  | .mistake => { code := 2, stderr := usageText, disk := d }

end LuaBundle.CommandLine
