import LuaBundle.FileSystem.Disk
import LuaBundle.Notice
import LuaBundle.Settings.Reading
import LuaBundle.Toml.Document

/-!
# Where settings come from

Settings are read from up to three files, see `Layer`.  The tables of the files are merged before
anything is made of them, so that a value that a later layer replaces is never looked at.

* `Environment` holds what decides where the user's file is, and `Environment.userFile` is that
  file.  Without a home directory nobody can tell where it is.
* `Settings.load` reads the settings of all layers.  The user's file and the project's file may be
  missing; a file that was asked for may not.
-/

set_option autoImplicit false

namespace LuaBundle

/-- Why there are no settings. -/
inductive SettingsFault where
  /-- A file that was asked for is not there. -/
  | notFound (file : Path)
  | unreadable (file : Path) (error : FileError)
  /-- A document is not TOML; one that comes from no file has no path. -/
  | notToml (file? : Option Path)
  | mismatch (m : Mismatch)
  | invalid (i : Invalid)
  deriving Repr

namespace SettingsFault

/-- The reasons of a failure, the outermost first.  What is wrong with a document that is not TOML
is not told. -/
def chain : SettingsFault → List String
  | notFound file => [s!"Config file not found: {file.text}"]
  | unreadable file error => [s!"Failed to read config file {file.text}", error.text]
  | notToml (some file) => [s!"Invalid TOML in {file.text}"]
  | notToml none => ["Invalid TOML in configuration"]
  | mismatch m => ["Invalid configuration", m.message]
  | invalid i => [i.message]

/-- The error of a file that caused the failure, if one did. -/
def fileError? : SettingsFault → Option FileError
  | unreadable _ error => some error
  | _ => none

end SettingsFault

namespace Settings

/-- The valid settings that a table gives. -/
def ofMerged (t : Toml.Table) : Except SettingsFault Settings := do
  let s ← (ofTable t).mapError .mismatch
  s.validate.mapError .invalid

/-- The settings that a document gives. -/
def ofToml (source : String) : Except SettingsFault Settings :=
  match Toml.parse? source with
  | none => .error (.notToml none)
  | some t => ofMerged t

end Settings

/-! ## Files of settings -/

/-- The name of a file of settings. -/
def settingsFileName : String := "aopack.toml"

/-- What decides where the user's settings are. -/
structure Environment where
  /-- The directory of the user's settings, if it was set. -/
  settingsDirectory? : Option String := none
  /-- The directory of all programs' settings, if it was set. -/
  configHome? : Option String := none
  /-- The home directory, if it was set. -/
  home? : Option String := none
  /-- The home directory of the user's account, if there is such an account. -/
  accountHome? : Option String := none
  deriving DecidableEq, Repr

/-- Why the place of the user's settings is unknown. -/
inductive DirectoryFault where
  | noHome
  deriving DecidableEq, Repr

/-- The reasons of a failure, the outermost first. -/
def DirectoryFault.chain : DirectoryFault → List String
  | noHome => ["Unable to find config directory", "could not locate home directory"]

namespace Environment

/-- The user's home directory.  One that was set to nothing counts as not set, and the account's
takes its place. -/
def homeDirectory (env : Environment) : Except DirectoryFault Path :=
  match (env.home?.filter (!·.isEmpty)).or env.accountHome? with
  | some directory => .ok ⟨directory⟩
  | none => .error .noHome

/-- The directory of the user's settings.  A relative directory for all programs does not count,
and an absolute one only counts when there is a home directory. -/
def userDirectory (env : Environment) : Except DirectoryFault Path :=
  match env.settingsDirectory? with
  | some directory => .ok ⟨directory⟩
  | none => do
    let home ← env.homeDirectory
    match env.configHome?.filter (fun d => Path.isAbsolute ⟨d⟩) with
    | some directory => return Path.child ⟨directory⟩ "aopack"
    | none => return (home.child ".config").child "aopack"

/-- The file of the user's settings. -/
def userFile (env : Environment) : Except DirectoryFault Path := do
  return (← env.userDirectory).child settingsFileName

end Environment

/-- The files of settings that are looked at. -/
structure SettingsFiles where
  user? : Option Path := none
  /-- The directory whose file of settings belongs to the project. -/
  projectDirectory? : Option Path := none
  explicit? : Option Path := none
  deriving DecidableEq, Repr

namespace SettingsFiles

/-- The files by layer, the weakest first. -/
def layers (f : SettingsFiles) : List (Layer × Path) :=
  (f.user?.map (Layer.user, ·)).toList ++
    (f.projectDirectory?.map (fun d => (Layer.project, d.child settingsFileName))).toList ++
    (f.explicit?.map (Layer.explicit, ·)).toList

end SettingsFiles

namespace Settings

/-- The table in a file of settings. -/
def readTable (d : Disk) (file : Path) : Except SettingsFault Toml.Table := do
  let source ← (d.read file).mapError (.unreadable file)
  match Toml.parse? source with
  | some t => .ok t
  | none => .error (.notToml file)

/-- Lays the table of a layer over the tables of weaker layers. -/
def addLayer (d : Disk) (below : Toml.Table) (layer : Layer) (file : Path) :
    Logged SettingsFault Toml.Table :=
  if d.isFile file then do
    Logged.note (.settingsFile layer file)
    return below.merge (← Logged.ofExcept (readTable d file))
  else if layer = .explicit then Logged.fail (.notFound file)
  else return below

/-- The merged table of some layers. -/
def mergedTable (d : Disk) (layers : List (Layer × Path)) : Logged SettingsFault Toml.Table :=
  layers.foldlM (fun below l => addLayer d below l.1 l.2) []

/-- The settings of all layers. -/
def load (d : Disk) (files : SettingsFiles) : Logged SettingsFault Settings := do
  let merged ← mergedTable d files.layers
  Logged.ofExcept (ofMerged merged)

end Settings

end LuaBundle
