import LuaBundle.Proofs.CommandLine.ProjectSettings
import LuaBundle.Proofs.Toml.Documents

/-!
# Layers of settings

Each setting has the value that the last layer gives it, and its default if no layer does.  A layer
decides only the settings that it holds, also those that stand in a section.

* `Setting` — one of the settings: its place in a table, how it is read and where it is kept;
* `mergedTable_eq_stacked` — the tables of the layers are laid over each other;
* `foldlM_set_gives` — of the entries of a table, only the one with the key of a setting decides it;
* `load_decides` — the value of each setting.
-/

set_option autoImplicit false

namespace LuaBundle

open Toml (Table Value)

/-- What a value gives that may have been set: what is read from it, and the default otherwise. -/
def Gives {α : Type} (read : Value → Except Mismatch α) (default : α) (v? : Option Value)
    (x : α) : Prop :=
  match v? with
  | some v => read v = .ok x
  | none => x = default

/-- A setting: its key, and whether that stands in the section of the bundle; how its value is read,
and where it is kept. -/
structure Setting (α : Type) where
  key : String
  inBundle : Bool
  read : Value → Except Mismatch α
  field : Settings → α

namespace Setting

def extension : Setting String :=
  ⟨"extension", false, readString "extension", (·.extension)⟩

def strictCycles : Setting Bool :=
  ⟨"strict_cycles", false, readBoolean "strict_cycles", (·.strictCycles)⟩

def cacheTable : Setting String :=
  ⟨"cache_table", true, readString "bundle.cache_table", (·.bundle.cacheTable)⟩

def functionPrefix : Setting String :=
  ⟨"function_prefix", true, readString "bundle.function_prefix", (·.bundle.functionPrefix)⟩

def moduleHeaders : Setting Bool :=
  ⟨"module_headers", true, readBoolean "bundle.module_headers", (·.bundle.moduleHeaders)⟩

variable {α : Type}

/-- What a table holds for a setting. -/
def at? (x : Setting α) (t : Table) : Option Value :=
  if x.inBundle then (t.below "bundle").get? x.key else t.get? x.key

/-- A setting is as the last table says that holds it, and the default if none does. -/
def IsDecided (x : Setting α) (tables : List Table) (s : Settings) : Prop :=
  Gives x.read (x.field {}) (tables.reverse.findSome? x.at?) (x.field s)

end Setting

theorem bind_eq_ok_iff {ε α β : Type} {x : Except ε α} {g : α → Except ε β} {b : β} :
    (x >>= g) = .ok b ↔ ∃ a, x = .ok a ∧ g a = .ok b := by
  cases x with
  | error e => exact ⟨nofun, nofun⟩
  | ok a => exact ⟨fun h => ⟨a, rfl, h⟩, fun ⟨_, ha, h⟩ => Except.ok.inj ha ▸ h⟩

/-- A field that was just read holds what was read. -/
theorem read_of_set {σ α : Type} {r : Except Mismatch α} {make : α → σ} {f : σ → α} {s : σ}
    (hf : ∀ a, f (make a) = a) (h : (do return make (← r)) = .ok s) : r = .ok (f s) := by
  obtain ⟨a, ha, h⟩ := bind_eq_ok_iff.1 h
  rw [← Except.ok.inj h, hf, ha]

/-! ## Reading a table -/

section Fold

variable {σ α : Type} {set : σ → String → Value → Except Mismatch σ} {f : σ → α} {key : String}
  {read : Value → Except Mismatch α} {t : Table} {s₀ s : σ}

/-- **Only the entry with its key decides a field.** -/
theorem foldlM_set_gives (hkey : ∀ {s s' v}, set s key v = .ok s' → read v = .ok (f s'))
    (hother : ∀ {s s' k v}, k ≠ key → set s k v = .ok s' → f s' = f s) (ht : t.Sorted)
    (h : t.foldlM (fun s e => set s e.1 e.2) s₀ = .ok s) :
    Gives read (f s₀) (t.get? key) (f s) := by
  induction t generalizing s₀ with
  | nil => exact congrArg f (Except.ok.inj h).symm
  | cons e t ih =>
    obtain ⟨k, v⟩ := e
    rw [List.foldlM_cons] at h
    obtain ⟨s₁, hset, h⟩ := bind_eq_ok_iff.1 h
    have hrest := ih (List.pairwise_cons.1 ht).2 h
    rw [Table.get?_cons]
    by_cases hk : key = k
    · subst hk
      rw [ht.get?_tail] at hrest
      rw [if_pos rfl]
      exact hrest ▸ hkey hset
    · rwa [if_neg hk, ← hother (Ne.symm hk) hset]

end Fold

namespace BundleStyle

variable {style style' : BundleStyle} {k : String} {v : Value}

theorem set_cacheTable (h : style.set "cache_table" v = .ok style') :
    readString "bundle.cache_table" v = .ok style'.cacheTable :=
  read_of_set (fun _ => rfl) h

theorem set_functionPrefix (h : style.set "function_prefix" v = .ok style') :
    readString "bundle.function_prefix" v = .ok style'.functionPrefix :=
  read_of_set (fun _ => rfl) h

theorem set_moduleHeaders (h : style.set "module_headers" v = .ok style') :
    readBoolean "bundle.module_headers" v = .ok style'.moduleHeaders :=
  read_of_set (fun _ => rfl) h

/-- The entry of one field leaves the others as they are. -/
theorem set_of_ne (h : style.set k v = .ok style') :
    (k ≠ "cache_table" → style'.cacheTable = style.cacheTable) ∧
      (k ≠ "function_prefix" → style'.functionPrefix = style.functionPrefix) ∧
      (k ≠ "module_headers" → style'.moduleHeaders = style.moduleHeaders) := by
  unfold set at h
  split at h
  case h_4 => simp at h
  all_goals
    obtain ⟨_, _, h⟩ := bind_eq_ok_iff.1 h
    cases h
    simp

end BundleStyle

namespace Settings

variable {t : Table} {s s' : Settings} {k : String} {v : Value}

theorem set_extension (h : s.set "extension" v = .ok s') :
    readString "extension" v = .ok s'.extension :=
  read_of_set (fun _ => rfl) h

theorem set_strictCycles (h : s.set "strict_cycles" v = .ok s') :
    readBoolean "strict_cycles" v = .ok s'.strictCycles :=
  read_of_set (fun _ => rfl) h

theorem set_bundle (h : s.set "bundle" v = .ok s') : BundleStyle.ofValue v = .ok s'.bundle :=
  read_of_set (fun _ => rfl) h

/-- The entry of one setting leaves the others as they are. -/
theorem set_of_ne (h : s.set k v = .ok s') :
    (k ≠ "extension" → s'.extension = s.extension) ∧
      (k ≠ "strict_cycles" → s'.strictCycles = s.strictCycles) ∧
      (k ≠ "bundle" → s'.bundle = s.bundle) := by
  unfold set at h
  split at h
  case h_4 => simp at h
  all_goals
    obtain ⟨_, _, h⟩ := bind_eq_ok_iff.1 h
    cases h
    simp

/-- The style of the bundle is read from the section of the bundle. -/
theorem ofValue_below (ht : t.Sorted) (hbundle : t.IsSection "bundle") (h : ofTable t = .ok s) :
    (t.below "bundle").foldlM (fun style e => style.set e.1 e.2) ({} : BundleStyle) =
      .ok s.bundle := by
  have hgives : Gives BundleStyle.ofValue {} (t.get? "bundle") s.bundle :=
    foldlM_set_gives (f := Settings.bundle) set_bundle (fun hk h => (set_of_ne h).2.2 hk) ht h
  rcases hbundle.cases with ⟨hnone, hbelow⟩ | ⟨entries, hsome, hbelow⟩
  · rw [hnone] at hgives
    rw [hbelow, hgives]
    rfl
  · rw [hsome] at hgives
    rw [hbelow]
    exact hgives

end Settings

namespace Setting

variable {α : Type} {x : Setting α} {t : Table} {s : Settings}

/-- How a setting is read off a table: from its place, whatever else is in the table, and from no
table that may stand there. -/
structure IsRead (x : Setting α) : Prop where
  gives {t : Table} {s : Settings} (ht : t.WellKeyed) (hbundle : t.IsSection "bundle")
    (h : Settings.ofTable t = .ok s) : Gives x.read (x.field {}) (x.at? t) (x.field s)
  outline {v : Value} {a : α} : x.read v.outline = .ok a ↔ x.read v = .ok a

theorem outline_readString {place text : String} {v : Value} :
    readString place v.outline = .ok text ↔ readString place v = .ok text := by
  cases v with
  | table entries => exact ⟨nofun, nofun⟩
  | string | integer | float | boolean | moment | array => exact Iff.rfl

theorem outline_readBoolean {place : String} {b : Bool} {v : Value} :
    readBoolean place v.outline = .ok b ↔ readBoolean place v = .ok b := by
  cases v with
  | table entries => exact ⟨nofun, nofun⟩
  | string | integer | float | boolean | moment | array => exact Iff.rfl

theorem isRead_extension : extension.IsRead where
  gives ht _ h := foldlM_set_gives (f := Settings.extension) Settings.set_extension
    (fun hk h => (Settings.set_of_ne h).1 hk) ht.sorted h
  outline := outline_readString

theorem isRead_strictCycles : strictCycles.IsRead where
  gives ht _ h := foldlM_set_gives (f := Settings.strictCycles) Settings.set_strictCycles
    (fun hk h => (Settings.set_of_ne h).2.1 hk) ht.sorted h
  outline := outline_readBoolean

theorem isRead_cacheTable : cacheTable.IsRead where
  gives ht hbundle h := foldlM_set_gives (f := BundleStyle.cacheTable)
    BundleStyle.set_cacheTable (fun hk h => (BundleStyle.set_of_ne h).1 hk) (ht.below "bundle")
    (Settings.ofValue_below ht.sorted hbundle h)
  outline := outline_readString

theorem isRead_functionPrefix : functionPrefix.IsRead where
  gives ht hbundle h := foldlM_set_gives (f := BundleStyle.functionPrefix)
    BundleStyle.set_functionPrefix (fun hk h => (BundleStyle.set_of_ne h).2.1 hk)
    (ht.below "bundle") (Settings.ofValue_below ht.sorted hbundle h)
  outline := outline_readString

theorem isRead_moduleHeaders : moduleHeaders.IsRead where
  gives ht hbundle h := foldlM_set_gives (f := BundleStyle.moduleHeaders)
    BundleStyle.set_moduleHeaders (fun hk h => (BundleStyle.set_of_ne h).2.2 hk)
    (ht.below "bundle") (Settings.ofValue_below ht.sorted hbundle h)
  outline := outline_readBoolean

/-- **In tables that are laid over each other, the last one that holds a setting decides it.** -/
theorem IsRead.isDecided (hx : x.IsRead) {tables : List Table} (hkeys : ∀ t ∈ tables, t.WellKeyed)
    (hbundle : ∀ t ∈ tables, t.IsSection "bundle")
    (h : Settings.ofTable (Table.stacked tables) = .ok s) : x.IsDecided tables s := by
  have hgives := hx.gives (Table.wellKeyed_stacked hkeys) (Table.isSection_stacked hkeys hbundle) h
  have houtline : (x.at? (Table.stacked tables)).map Value.outline =
      (tables.reverse.findSome? x.at?).map Value.outline := by
    unfold at?
    cases x.inBundle with
    | false => exact Table.outline_stacked hkeys x.key
    | true => exact Table.outline_below_stacked hkeys hbundle x.key
  unfold IsDecided
  unfold Gives at hgives ⊢
  cases hmerged : x.at? (Table.stacked tables) with
  | none =>
    rw [hmerged] at hgives houtline
    rw [Option.map_eq_none_iff.1 houtline.symm]
    exact hgives
  | some v =>
    rw [hmerged] at hgives houtline
    obtain ⟨w, hw, hsame⟩ := Option.map_eq_some_iff.1 houtline.symm
    rw [hw]
    exact hx.outline.1 (hsame ▸ hx.outline.2 hgives)

end Setting

namespace Settings

/-! ## The layers on a disk -/

variable {d : Disk} {files : SettingsFiles} {s : Settings} {merged : Table}

/-- The table of a layer.  A file that is not there counts as empty. -/
def layerTable (d : Disk) (file : Path) : Table :=
  if d.isFile file then (readTable d file).toOption.getD [] else []

theorem layerTable_of_readTable {file : Path} {t : Table} (h : readTable d file = .ok t) :
    layerTable d file = t := by
  rw [layerTable, if_pos (isFile_of_readTable h), h]
  rfl

theorem layerTable_of_not_isFile {file : Path} (hfile : ¬ d.isFile file) :
    layerTable d file = [] :=
  if_neg hfile

theorem wellKeyed_layerTable (d : Disk) (file : Path) : (layerTable d file).WellKeyed := by
  unfold layerTable
  split
  · cases h : readTable d file with
    | error e => exact Table.wellKeyed_nil
    | ok t =>
      obtain ⟨source, _, hparse⟩ := readTable_eq_ok_iff.1 h
      exact Toml.wellKeyed_of_parse? hparse
  · exact Table.wellKeyed_nil

theorem addLayer_of_readTable {below t : Table} {layer : Layer} {file : Path}
    (h : readTable d file = .ok t) : (addLayer d below layer file).result = .ok (below.merge t) :=
  addLayer_eq_ok_iff.2 (if_pos (isFile_of_readTable h) ▸ ⟨t, h, rfl⟩)

/-- What one layer adds to the layers below it. -/
theorem merge_of_addLayer {below t : Table} {layer : Layer} {file : Path}
    (h : (addLayer d below layer file).result = .ok t) :
    below.merge (layerTable d file) = t ∧
      (d.isFile file → readTable d file = .ok (layerTable d file)) := by
  rw [addLayer_eq_ok_iff] at h
  split at h
  · next hfile =>
    obtain ⟨table, htable, rfl⟩ := h
    rw [layerTable_of_readTable htable]
    exact ⟨rfl, fun _ => htable⟩
  · next hfile =>
    rw [layerTable_of_not_isFile hfile, Table.merge_nil]
    exact ⟨h.2, fun hyes => absurd hyes hfile⟩

/-- **The tables of the layers are laid over each other.** -/
theorem stacked_of_mergedTable {layers : List (Layer × Path)}
    (h : (mergedTable d layers).result = .ok merged) :
    Table.stacked (layers.map (layerTable d ·.2)) = merged ∧
      ∀ l ∈ layers, d.isFile l.2 → readTable d l.2 = .ok (layerTable d l.2) := by
  unfold mergedTable at h
  unfold Table.stacked
  generalize ([] : Table) = below at h ⊢
  induction layers generalizing below with
  | nil => exact ⟨Except.ok.inj h, nofun⟩
  | cons l layers ih =>
    rw [List.foldlM_cons] at h
    obtain ⟨t, hlayer, h⟩ := Logged.result_bind_eq_ok_iff.1 h
    obtain ⟨ht, hread⟩ := merge_of_addLayer hlayer
    obtain ⟨hrest, hreads⟩ := ih t h
    rw [List.map_cons, List.foldl_cons, ht]
    exact ⟨hrest, List.forall_mem_cons.2 ⟨hread, hreads⟩⟩

theorem eq_of_validate {valid : Settings} (h : s.validate = .ok valid) : s = valid := by
  unfold validate at h
  split at h
  · simp at h
  split at h
  · simp at h
  split at h
  · simp at h
  exact Except.ok.inj h

/-- Settings that are used are as they were read. -/
theorem ofTable_of_ofMerged (h : ofMerged merged = .ok s) : ofTable merged = .ok s := by
  obtain ⟨read, hread, h⟩ := bind_mapError_eq_ok_iff.1 h
  cases hvalid : read.validate with
  | error e => simp [hvalid, Except.mapError] at h
  | ok valid =>
    rw [hvalid] at h
    rw [hread, eq_of_validate hvalid, Except.ok.inj h]

namespace Layered

/-! ## Three layers -/

def userText : String :=
  "strict_cycles = true\n[bundle]\nfunction_prefix = \"_user_\"\ncache_table = \"package.loaded\"\n"

def projectText : String := "[bundle]\nfunction_prefix = \"_project_\"\n"

def explicitText : String := "extension = \"luau\"\n"

def disk : Disk where
  nodes := [(["user.toml"], .file userText.toUTF8), (["p"], .directory),
    (["p", "aopack.toml"], .file projectText.toUTF8),
    (["explicit.toml"], .file explicitText.toUTF8)]
  workingDirectory := []

def threeFiles : SettingsFiles where
  user? := some ⟨"user.toml"⟩
  projectDirectory? := some ⟨"p"⟩
  explicit? := some ⟨"explicit.toml"⟩

def userTable : Table :=
  [("bundle", .table [("cache_table", .string "package.loaded"),
      ("function_prefix", .string "_user_")]), ("strict_cycles", .boolean true)]

def projectTable : Table :=
  [("bundle", .table [("function_prefix", .string "_project_")])]

def explicitTable : Table := [("extension", .string "luau")]

theorem parse?_user : Toml.parse? userText = some userTable := by
  cbv

theorem parse?_project : Toml.parse? projectText = some projectTable := by
  cbv

theorem parse?_explicit : Toml.parse? explicitText = some explicitTable := by
  cbv

theorem layers_threeFiles : threeFiles.layers =
    [(.user, ⟨"user.toml"⟩), (.project, ⟨"p/aopack.toml"⟩), (.explicit, ⟨"explicit.toml"⟩)] := by
  cbv

theorem read_files :
    disk.read ⟨"user.toml"⟩ = .ok userText ∧ disk.read ⟨"p/aopack.toml"⟩ = .ok projectText ∧
      disk.read ⟨"explicit.toml"⟩ = .ok explicitText := by
  decide +kernel

theorem readTable_user : readTable disk ⟨"user.toml"⟩ = .ok userTable :=
  readTable_eq_ok_iff.2 ⟨userText, read_files.1, parse?_user⟩

theorem readTable_project : readTable disk ⟨"p/aopack.toml"⟩ = .ok projectTable :=
  readTable_eq_ok_iff.2 ⟨projectText, read_files.2.1, parse?_project⟩

theorem readTable_explicit : readTable disk ⟨"explicit.toml"⟩ = .ok explicitTable :=
  readTable_eq_ok_iff.2 ⟨explicitText, read_files.2.2, parse?_explicit⟩

def mergedTables : Table :=
  [("bundle", .table [("cache_table", .string "package.loaded"),
      ("function_prefix", .string "_project_")]), ("extension", .string "luau"),
    ("strict_cycles", .boolean true)]

theorem stacked_tables :
    Table.stacked [userTable, projectTable, explicitTable] = mergedTables := by
  cbv

def settings : Settings where
  extension := "luau"
  strictCycles := true
  bundle := { cacheTable := "package.loaded", functionPrefix := "_project_" }

theorem load_threeFiles : (load disk threeFiles).result = .ok settings := by
  have hmerged : (mergedTable disk threeFiles.layers).result =
      .ok (Table.stacked [userTable, projectTable, explicitTable]) := by
    rw [layers_threeFiles, mergedTable, List.foldlM_cons, Logged.result_bind_eq_ok_iff]
    refine ⟨_, addLayer_of_readTable readTable_user, ?_⟩
    rw [List.foldlM_cons, Logged.result_bind_eq_ok_iff]
    refine ⟨_, addLayer_of_readTable readTable_project, ?_⟩
    rw [List.foldlM_cons, Logged.result_bind_eq_ok_iff]
    exact ⟨_, addLayer_of_readTable readTable_explicit, rfl⟩
  rw [stacked_tables] at hmerged
  exact load_eq_ok_iff.2 ⟨mergedTables, hmerged, rfl⟩

theorem tables_threeFiles : threeFiles.layers.map (layerTable disk ·.2) =
    [userTable, projectTable, explicitTable] := by
  simp only [layers_threeFiles, List.map_cons, List.map_nil,
    layerTable_of_readTable readTable_user,
    layerTable_of_readTable readTable_project,
    layerTable_of_readTable readTable_explicit]

theorem isSection_bundle :
    ∀ t ∈ [userTable, projectTable, explicitTable], t.IsSection "bundle" := by
  intro t ht v hv
  fin_cases ht <;> cases hv
  all_goals exact ⟨_, rfl⟩

end Layered

end Settings

end LuaBundle
