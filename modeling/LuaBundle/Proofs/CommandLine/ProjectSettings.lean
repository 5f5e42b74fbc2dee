import Mathlib
import LuaBundle.CommandLine.Outcome
import LuaBundle.Proofs.FileSystem.Disk
import LuaBundle.Proofs.Project.Reads

/-!
# The settings beside the entry file

A run looks for the project's file of settings through the parent of the entry's path, in the
spelling that was given.  On a disk this is the directory that holds the entry file — unless the
path is a bare name: then its parent is the empty path, and the project's settings are left out.

* `Settings.load_congr` — settings depend on what is at the files of the layers, not on their paths;
* `Job.settings_of_spelling` — spellings of one file in more than one step give the same settings and
  the same bundle;
* `Job.settings_of_bare_name` — and a bare name gives others.
-/

set_option autoImplicit false

namespace LuaBundle

variable {d : Disk}

/-! ## Layers -/

namespace Disk

variable {p q : Path}

theorem isFile_congr (h : d.stat p = d.stat q) : d.isFile p = d.isFile q := by
  rw [isFile, isFile, h]

theorem read_congr (h : d.stat p = d.stat q) : d.read p = d.read q := by
  rw [read, read, h]

end Disk

namespace Settings

variable {below t : Toml.Table} {layer : Layer} {file file' : Path}

theorem bind_mapError_eq_ok_iff {ε ε' α β : Type} {f : ε → ε'} {x : Except ε α}
    {g : α → Except ε' β} {b : β} :
    (x.mapError f >>= g) = .ok b ↔ ∃ a, x = .ok a ∧ g a = .ok b := by
  cases x with
  | error e => exact ⟨nofun, nofun⟩
  | ok a => exact ⟨fun h => ⟨a, rfl, h⟩, fun ⟨_, ha, h⟩ => Except.ok.inj ha ▸ h⟩

theorem readTable_eq_ok_iff : readTable d file = .ok t ↔
    ∃ source, d.read file = .ok source ∧ Toml.parse? source = some t := by
  rw [readTable, bind_mapError_eq_ok_iff]
  refine exists_congr fun source => and_congr_right fun _ => ?_
  split <;> simp_all

/-- What has a table is a file. -/
theorem isFile_of_readTable (h : readTable d file = .ok t) : d.isFile file := by
  obtain ⟨_, hread, _⟩ := readTable_eq_ok_iff.1 h
  exact Disk.isFile_of_read hread

/-- A layer that is there is laid over the others, and one that is not may not have been asked
for. -/
theorem addLayer_eq_ok_iff : (addLayer d below layer file).result = .ok t ↔
    if d.isFile file then ∃ table, readTable d file = .ok table ∧ below.merge table = t
    else layer ≠ .explicit ∧ below = t := by
  unfold addLayer
  split
  · simp only [Logged.result_bind_eq_ok_iff]
    constructor
    · rintro ⟨_, _, table, htable, h⟩
      exact ⟨table, htable, Except.ok.inj h⟩
    · rintro ⟨table, htable, rfl⟩
      exact ⟨(), rfl, table, htable, rfl⟩
  · split
    · next h => simp [h]
    · next h => simp [h]

theorem addLayer_congr (h : d.stat file = d.stat file') :
    (addLayer d below layer file).result = .ok t ↔
      (addLayer d below layer file').result = .ok t := by
  simp only [addLayer_eq_ok_iff, readTable_eq_ok_iff, Disk.isFile_congr h, Disk.read_congr h]

/-- Layers whose files hold the same have the same merged table. -/
theorem mergedTable_congr {layers layers' : List (Layer × Path)}
    (h : List.Forall₂ (fun l l' => l.1 = l'.1 ∧ d.stat l.2 = d.stat l'.2) layers layers') :
    (mergedTable d layers).result = .ok t ↔ (mergedTable d layers').result = .ok t := by
  unfold mergedTable
  generalize ([] : Toml.Table) = below
  induction h generalizing below with
  | nil => exact Iff.rfl
  | cons hl _ ih =>
    obtain ⟨hlayer, hstat⟩ := hl
    simp only [List.foldlM_cons, Logged.result_bind_eq_ok_iff, hlayer, addLayer_congr hstat, ih]

theorem load_eq_ok_iff {files : SettingsFiles} {s : Settings} : (load d files).result = .ok s ↔
    ∃ merged, (mergedTable d files.layers).result = .ok merged ∧ ofMerged merged = .ok s :=
  Logged.result_bind_eq_ok_iff

/-- **Settings depend on what is at the files of the layers.** -/
theorem load_congr {files files' : SettingsFiles}
    (h : List.Forall₂ (fun l l' => l.1 = l'.1 ∧ d.stat l.2 = d.stat l'.2)
      files.layers files'.layers)
    {s : Settings} : (load d files).result = .ok s ↔ (load d files').result = .ok s := by
  simp only [load_eq_ok_iff, mergedTable_congr h]

end Settings

namespace CommandLine

namespace Job

variable {job job' : Job} {env : Environment} {loc : Disk.Location}

/-! ## Runs -/

theorem settings_eq_ok_iff {s : Settings} : (job.settings env d).result = .ok s ↔
    ∃ loaded, (Settings.load d (job.settingsFiles env)).result = .ok loaded ∧
      { loaded with strictCycles := loaded.strictCycles || job.strictCycles } = s := by
  simp only [settings, Logged.result_bind_eq_ok_iff, Logged.result_mapError_eq_ok_iff]
  exact exists_congr fun loaded => and_congr_right fun _ => ⟨Except.ok.inj, congrArg _⟩

theorem start_eq_ok_iff {s : Settings} :
    (job.start env d).result = .ok s ↔ (job.settings env d).result = .ok s := by
  rw [start, Logged.result_bind_eq_ok_iff]
  constructor
  · rintro ⟨s', hs, h⟩
    obtain ⟨_, _, h⟩ := Logged.result_bind_eq_ok_iff.1 h
    rwa [← Except.ok.inj h]
  · exact fun hs => ⟨s, hs, rfl⟩

theorem bundle_eq_ok_iff {s : Settings} {run : Run} : (job.bundle s d).result = .ok run ↔
    (Run.ofEntry d.toFileSystem s job.entry).result = .ok run := by
  rw [bundle, Logged.result_bind_eq_ok_iff]
  constructor
  · rintro ⟨run', hrun, h⟩
    obtain ⟨_, _, h⟩ := Logged.result_bind_eq_ok_iff.1 h
    obtain ⟨_, _, h⟩ := Logged.result_bind_eq_ok_iff.1 h
    rw [← Except.ok.inj h]
    exact Logged.result_mapError_eq_ok_iff.1 hrun
  · exact fun hrun => ⟨run, Logged.result_mapError_eq_ok_iff.2 hrun, rfl⟩

/-- What a run prints that prints its bundle. -/
theorem stdout_eq_ok_iff {text : String} :
    (perform { job with mode := .stdout } env d).2.result = .ok text ↔
      ∃ s, (job.settings env d).result = .ok s ∧
        ∃ run, (Run.ofEntry d.toFileSystem s job.entry).result = .ok run ∧
          run.bundle.source ++ "\n" = text := by
  have hprinted : (perform { job with mode := .stdout } env d).2.result = .ok text ↔
      ∃ s, (job.start env d).result = .ok s ∧ ∃ run, (job.bundle s d).result = .ok run ∧
        (.ok (run.bundle.source ++ "\n") : Except Failure String) = .ok text := by
    rw [perform, Logged.result_bind_eq_ok_iff]
    exact exists_congr fun s => and_congr_right fun _ => Logged.result_bind_eq_ok_iff
  simp only [hprinted, start_eq_ok_iff, bundle_eq_ok_iff, Except.ok.injEq]

/-! ## Spellings of the entry -/

theorem isFileName_settingsFileName : IsFileName settingsFileName where
  ne_empty := by decide
  ne_here := by decide
  ne_up := by decide
  not_mem_slash := by decide

/-- The entry of a run names a place in more than one step, and its path is not so long that the
name of a file of settings could not stand in its last step's place. -/
structure NamesBeyond (job : Job) (d : Disk) (loc : Disk.Location) : Prop where
  locate : d.locate job.entry = .ok loc
  steps : 1 < job.entry.steps.length
  length : job.entry.text.utf8ByteSize + 1 + settingsFileName.utf8ByteSize < Disk.pathLengthLimit

/-- The project's file of settings is beside the entry file. -/
theorem NamesBeyond.exists_projectDirectory? (h : job.NamesBeyond d loc) (hd : d.IsTree)
    {content : ByteArray} (hfile : d.node? loc = some (.file content)) (env : Environment) :
    ∃ dir, (job.settingsFiles env).projectDirectory? = some dir ∧
      d.stat (dir.child settingsFileName) = d.statAt (loc.dropLast ++ [settingsFileName]) := by
  obtain ⟨dir, hdir, hne⟩ := Path.exists_parent?_iff.2 h.steps
  refine ⟨dir, by simp [settingsFiles, hdir, hne], ?_⟩
  have hrefuse := Disk.refuse_child (Disk.refuse_of_locate h.locate) hdir
    isFileName_settingsFileName.ne_empty (by decide) h.length
  exact hd.stat_sibling h.locate hfile hdir isFileName_settingsFileName (by decide) hrefuse

/-- A bare name has no directory, and so no settings beside it. -/
theorem projectDirectory?_eq_none (h : job.entry.steps.length ≤ 1) (env : Environment) :
    (job.settingsFiles env).projectDirectory? = none := by
  refine Option.filter_eq_none_iff.2 fun dir hdir hne => ?_
  have hlong := Path.exists_parent?_iff.1 ⟨dir, hdir, by simpa using hne⟩
  exact absurd hlong (Nat.not_lt.2 h)

/-- Spellings of one file have the same settings. -/
theorem settings_congr (h : job.NamesBeyond d loc) (h' : job'.NamesBeyond d loc) (hd : d.IsTree)
    {content : ByteArray} (hfile : d.node? loc = some (.file content))
    (hconfig : job.config? = job'.config?) (hstrict : job.strictCycles = job'.strictCycles)
    {s : Settings} :
    (job.settings env d).result = .ok s ↔ (job'.settings env d).result = .ok s := by
  obtain ⟨dir, hdir, hstat⟩ := h.exists_projectDirectory? hd hfile env
  obtain ⟨dir', hdir', hstat'⟩ := h'.exists_projectDirectory? hd hfile env
  have hlayers : List.Forall₂ (fun l l' => l.1 = l'.1 ∧ d.stat l.2 = d.stat l'.2)
      (job.settingsFiles env).layers (job'.settingsFiles env).layers := by
    have hrefl : ∀ layers : List (Layer × Path), List.Forall₂
        (fun l l' => l.1 = l'.1 ∧ d.stat l.2 = d.stat l'.2) layers layers :=
      fun layers => List.forall₂_same.2 fun _ _ => ⟨rfl, rfl⟩
    have hexplicit : (job.settingsFiles env).explicit? = (job'.settingsFiles env).explicit? :=
      hconfig
    rw [SettingsFiles.layers, SettingsFiles.layers, hdir, hdir', hexplicit]
    refine List.rel_append (List.rel_append (hrefl _) ?_) (hrefl _)
    exact .cons ⟨rfl, hstat.trans hstat'.symm⟩ .nil
  simp only [settings_eq_ok_iff, Settings.load_congr hlayers, hstrict]

theorem resolve_eq_of_normalize {files : FileSystem} {settings : Settings} {entry entry' : Path}
    (h : entry.normalize = entry'.normalize) :
    Project.resolve files settings entry = Project.resolve files settings entry' := by
  simp only [Project.resolve, h]

/-- **The settings of a project are beside its entry file**, whatever the spelling of the entry, as
long as it has more than one step: the layer of the project is what is at the name of a file of
settings in the directory that holds the entry.  So two such spellings of one file give the same
settings, and if they have one normal form, the same bundle.  In one step there is no layer of the
project. -/
theorem settings_of_spelling (d : Disk) (hd : d.IsTree) (env : Environment) (loc : Disk.Location)
    (content : ByteArray) (hfile : d.node? loc = some (.file content)) :
    (∀ job : Job, job.NamesBeyond d loc →
        ∃ file, (.project, file) ∈ (job.settingsFiles env).layers ∧
          d.stat file = d.statAt (loc.dropLast ++ [settingsFileName])) ∧
      (∀ job job' : Job, job.NamesBeyond d loc → job'.NamesBeyond d loc →
        job.config? = job'.config? → job.strictCycles = job'.strictCycles →
        (∀ s, (job.settings env d).result = .ok s ↔ (job'.settings env d).result = .ok s) ∧
          (job.entry.normalize = job'.entry.normalize → ∀ text,
            (perform { job with mode := .stdout } env d).2.result = .ok text ↔
              (perform { job' with mode := .stdout } env d).2.result = .ok text)) ∧
      ∀ job : Job, job.entry.steps.length ≤ 1 →
        ∀ file, (.project, file) ∉ (job.settingsFiles env).layers := by
  refine ⟨fun job h => ?_,
    fun job job' h h' hconfig hstrict => ⟨fun s => ?_, fun hnormal text => ?_⟩,
    fun job h file hmem => ?_⟩
  · obtain ⟨dir, hdir, hstat⟩ := h.exists_projectDirectory? hd hfile env
    exact ⟨dir.child settingsFileName, by simp [SettingsFiles.layers, hdir], hstat⟩
  · exact settings_congr h h' hd hfile hconfig hstrict
  · simp only [stdout_eq_ok_iff, settings_congr h h' hd hfile hconfig hstrict,
      Run.ofEntry_eq_ok_iff, resolve_eq_of_normalize hnormal]
  · simp [SettingsFiles.layers, projectDirectory?_eq_none h] at hmem

/-! ## An entry without a directory -/

namespace Bare

def settingsText : String := "[bundle]\nmodule_headers = false\n"

/-- An entry file, settings beside it, and a directory to go through. -/
def disk : Disk where
  nodes := [(["aopack.toml"], .file settingsText.toUTF8), (["d"], .directory),
    (["main.lua"], .file "return 1".toUTF8)]
  workingDirectory := []

def call (entry : String) : Job := { entry := ⟨entry⟩, mode := .stdout }

theorem isTree_disk : disk.IsTree :=
  Disk.isTree_of_nodes (by decide +kernel)

/-- The table of the settings. -/
def table : Toml.Table := [("bundle", .table [("module_headers", .boolean false)])]

theorem parse?_settingsText : Toml.parse? settingsText = some table := by
  cbv

theorem merge_nil_singleton (key : String) (v : Toml.Value) :
    Toml.Table.merge [] [(key, v)] = [(key, v)] := by
  rw [Toml.Table.merge, Toml.Table.merge]
  · rfl
  · simp [Toml.Table.get?]

theorem settings_dotted : (settings (call "./main.lua") {} disk).result =
    .ok { bundle := { moduleHeaders := false } } := by
  have hlayers : (settingsFiles (call "./main.lua") {}).layers =
      [(.project, ⟨"./aopack.toml"⟩)] := by decide +kernel
  have hfile : disk.isFile ⟨"./aopack.toml"⟩ := by decide +kernel
  have hread : disk.read ⟨"./aopack.toml"⟩ = .ok settingsText := by decide +kernel
  have htable : (Settings.addLayer disk [] .project ⟨"./aopack.toml"⟩).result = .ok table := by
    rw [Settings.addLayer_eq_ok_iff, if_pos hfile]
    exact ⟨table, Settings.readTable_eq_ok_iff.2 ⟨_, hread, parse?_settingsText⟩,
      merge_nil_singleton _ _⟩
  have hloaded : Settings.ofMerged table = .ok { bundle := { moduleHeaders := false } } := by
    rfl
  refine settings_eq_ok_iff.2 ⟨_, Settings.load_eq_ok_iff.2 ⟨table, ?_, hloaded⟩, rfl⟩
  rw [hlayers, Settings.mergedTable, List.foldlM_cons, Logged.result_bind_eq_ok_iff]
  exact ⟨table, htable, rfl⟩

end Bare

/-- **A bare name loses the settings** that are beside the file: the same file in the same directory,
spelled with a leading dot, has them. -/
theorem settings_of_bare_name :
    Bare.disk.locate ⟨"main.lua"⟩ = .ok ["main.lua"] ∧
      Bare.disk.locate ⟨"./main.lua"⟩ = .ok ["main.lua"] ∧
      Bare.disk.isFile ⟨"main.lua"⟩ ∧ Bare.disk.isFile ⟨"aopack.toml"⟩ ∧
      (settings (Bare.call "main.lua") {} Bare.disk).result.toOption = some {} ∧
      (settings (Bare.call "./main.lua") {} Bare.disk).result.toOption =
        some { bundle := { moduleHeaders := false } } := by
  refine ⟨by decide +kernel, by decide +kernel, by decide +kernel, by decide +kernel,
    by decide +kernel, ?_⟩
  rw [Bare.settings_dotted]
  rfl

/-- A way through another directory does not lose them. -/
theorem settings_of_spelling_detour :
    (settings (Bare.call "d/../main.lua") {} Bare.disk).result =
      .ok { bundle := { moduleHeaders := false } } := by
  have hfile : Bare.disk.node? ["main.lua"] = some (.file "return 1".toUTF8) := by decide +kernel
  obtain ⟨_, hsame, _⟩ := settings_of_spelling Bare.disk Bare.isTree_disk {} ["main.lua"] _ hfile
  have hdotted : (Bare.call "./main.lua").NamesBeyond Bare.disk ["main.lua"] :=
    ⟨by decide +kernel, by decide +kernel, by decide +kernel⟩
  have hdetour : (Bare.call "d/../main.lua").NamesBeyond Bare.disk ["main.lua"] :=
    ⟨by decide +kernel, by decide +kernel, by decide +kernel⟩
  exact ((hsame _ _ hdotted hdetour rfl rfl).1 _).1 Bare.settings_dotted

end Job

end CommandLine

end LuaBundle
