import LuaBundle.Proofs.Settings.Layers

/-!
# Keys that are no setting

Keys are looked at once, when the tables of all layers have been merged.  No key gets lost before
that: a later layer replaces values, and where both hold a section the keys of both stay.  So a
misspelt key of any layer is found, whatever the layers above it hold.

* `Table.mem_keys_stacked`, `Table.mem_keys_below_stacked` — the keys of tables that are laid over
  each other are those of each of them, at the top and in a section;
* `Settings.not_hasUnknownKey_of_ofTable`, `Settings.hasUnknownKey_of_ofTable` — a table that is read
  holds no unknown key, and one that is reported is there;
* `load_refuses_unknown_keys` — the same for the layers.
-/

set_option autoImplicit false

namespace LuaBundle

open Toml (Table Value)

/-! ## The keys of a table -/

namespace Toml.Table

variable {t : Table} {key k : String} {v : Value} {ts : List Table}

def keys (t : Table) : List String :=
  t.map (·.1)

theorem isSome_get?_iff : (t.get? key).isSome ↔ key ∈ t.keys := by
  simp [get?, keys]

theorem Sorted.get?_eq_some_of_mem (h : t.Sorted) (hmem : (key, v) ∈ t) :
    t.get? key = some v := by
  induction t with
  | nil => simp at hmem
  | cons e t ih =>
    obtain ⟨first, w⟩ := e
    obtain ⟨hfirst, htail⟩ := List.pairwise_cons.1 h
    rw [get?_cons]
    rcases List.mem_cons.1 hmem with he | hmem
    · obtain ⟨rfl, rfl⟩ := Prod.mk.inj he
      rw [if_pos rfl]
    · have hne : key ≠ first := fun he => String.lt_irrefl first (he ▸ hfirst _ hmem)
      rw [if_neg hne, ih htail hmem]

theorem isSome_findSome?_iff {α β : Type} {f : α → Option β} {l : List α} :
    (l.reverse.findSome? f).isSome ↔ ∃ a ∈ l, (f a).isSome := by
  simp [List.findSome?_isSome_iff]

/-- **Tables that are laid over each other keep all their keys.** -/
theorem mem_keys_stacked (h : ∀ t ∈ ts, t.WellKeyed) :
    key ∈ (stacked ts).keys ↔ ∃ t ∈ ts, key ∈ t.keys := by
  have hsome := congrArg Option.isSome (outline_stacked h key)
  rw [Option.isSome_map, Option.isSome_map] at hsome
  simp only [← isSome_get?_iff, hsome, isSome_findSome?_iff]

/-- **And so do their sections.** -/
theorem mem_keys_below_stacked (h : ∀ t ∈ ts, t.WellKeyed) (hkey : ∀ t ∈ ts, t.IsSection key) :
    k ∈ ((stacked ts).below key).keys ↔ ∃ t ∈ ts, k ∈ (t.below key).keys := by
  have hsome := congrArg Option.isSome (outline_below_stacked h hkey k)
  rw [Option.isSome_map, Option.isSome_map] at hsome
  simp only [← isSome_get?_iff, hsome, isSome_findSome?_iff]

end Toml.Table

/-! ## Unknown keys -/

/-- The keys of the settings. -/
def Settings.knownKeys : List String :=
  ["extension", "strict_cycles", "bundle"]

/-- The keys of the settings in the section of the bundle. -/
def BundleStyle.knownKeys : List String :=
  ["cache_table", "function_prefix", "module_headers"]

/-- A table holds a key that no setting has, and this is how it is reported. -/
inductive HasUnknownKey (t : Table) : Mismatch → Prop
  | atTop {key : String} (hmem : key ∈ t.keys) (hkey : key ∉ Settings.knownKeys) :
      HasUnknownKey t (.unknownSetting key)
  | inBundle {key : String} (hmem : key ∈ (t.below "bundle").keys)
      (hkey : key ∉ BundleStyle.knownKeys) : HasUnknownKey t (.unknownBundleSetting key)

theorem not_hasUnknownKey_nil {m : Mismatch} : ¬ HasUnknownKey [] m := by
  rintro (⟨hmem, _⟩ | ⟨hmem, _⟩)
  · exact nomatch hmem
  · exact nomatch hmem

/-- Whether a mismatch reports a key. -/
def Mismatch.isUnknownKey : Mismatch → Bool
  | unknownSetting _ | unknownBundleSetting _ => true
  | wrongType .. | tooManyItems _ => false

/-- Tables that are laid over each other hold the unknown keys of each of them. -/
theorem hasUnknownKey_stacked {ts : List Table} {m : Mismatch} (h : ∀ t ∈ ts, t.WellKeyed)
    (hbundle : ∀ t ∈ ts, t.IsSection "bundle") :
    HasUnknownKey (Table.stacked ts) m ↔ ∃ t ∈ ts, HasUnknownKey t m := by
  constructor
  · rintro (⟨hmem, hkey⟩ | ⟨hmem, hkey⟩)
    · obtain ⟨t, ht, hmem⟩ := (Table.mem_keys_stacked h).1 hmem
      exact ⟨t, ht, .atTop hmem hkey⟩
    · obtain ⟨t, ht, hmem⟩ := (Table.mem_keys_below_stacked h hbundle).1 hmem
      exact ⟨t, ht, .inBundle hmem hkey⟩
  · rintro ⟨t, ht, ⟨hmem, hkey⟩ | ⟨hmem, hkey⟩⟩
    · exact .atTop ((Table.mem_keys_stacked h).2 ⟨t, ht, hmem⟩) hkey
    · exact .inBundle ((Table.mem_keys_below_stacked h hbundle).2 ⟨t, ht, hmem⟩) hkey

/-! ## Reading tables -/

section Fold

variable {σ : Type} {f : σ → String × Value → Except Mismatch σ} {P : String × Value → Prop}
  {t : Table} {s₀ s : σ} {m : Mismatch}

/-- What holds of each entry that can be read holds of the entries of a table that was read. -/
theorem forall_of_foldlM_eq_ok (hf : ∀ {s s' e}, f s e = .ok s' → P e)
    (h : t.foldlM f s₀ = .ok s) : ∀ e ∈ t, P e := by
  induction t generalizing s₀ with
  | nil => exact nofun
  | cons e t ih =>
    rw [List.foldlM_cons] at h
    obtain ⟨s₁, hfirst, h⟩ := bind_eq_ok_iff.1 h
    exact List.forall_mem_cons.2 ⟨hf hfirst, ih h⟩

/-- The first entry that cannot be read is the reason why its table cannot be read. -/
theorem exists_of_foldlM_eq_error (hf : ∀ {s e}, f s e = .error m → P e)
    (h : t.foldlM f s₀ = .error m) : ∃ e ∈ t, P e := by
  induction t generalizing s₀ with
  | nil => exact nomatch h
  | cons e t ih =>
    rw [List.foldlM_cons] at h
    cases hfirst : f s₀ e with
    | error m' =>
      rw [hfirst] at h
      cases h
      exact ⟨e, List.mem_cons_self, hf hfirst⟩
    | ok s₁ =>
      rw [hfirst] at h
      obtain ⟨e', he', hP⟩ := ih h
      exact ⟨e', List.mem_cons_of_mem _ he', hP⟩

end Fold

/-! ## What is reported -/

/-- A field that cannot be set is one whose value cannot be read. -/
theorem eq_error_of_set {σ α : Type} {r : Except Mismatch α} {make : α → σ} {m : Mismatch}
    (h : (do return make (← r)) = .error m) : r = .error m := by
  cases r with
  | error m' => exact congrArg _ (Except.error.inj h)
  | ok a => exact nomatch h

/-- What reads one value reports no key. -/
theorem not_isUnknownKey_of_readString {place : String} {v : Value} {m : Mismatch}
    (h : readString place v = .error m) : ¬ m.isUnknownKey := by
  cases v <;> cases h <;> exact Bool.false_ne_true

theorem not_isUnknownKey_of_readBoolean {place : String} {v : Value} {m : Mismatch}
    (h : readBoolean place v = .error m) : ¬ m.isUnknownKey := by
  cases v <;> cases h <;> exact Bool.false_ne_true

namespace BundleStyle

variable {style style' : BundleStyle} {k : String} {v : Value} {m : Mismatch}

theorem mem_knownKeys_of_set (h : style.set k v = .ok style') : k ∈ knownKeys := by
  unfold set at h
  split at h
  case h_4 => simp at h
  all_goals simp [knownKeys]

/-- The only key that is reported is that of the entry. -/
theorem eq_of_set_eq_error (hm : m.isUnknownKey) (h : style.set k v = .error m) :
    m = .unknownBundleSetting k ∧ k ∉ knownKeys := by
  unfold set at h
  split at h
  · exact absurd hm (not_isUnknownKey_of_readString (eq_error_of_set h))
  · exact absurd hm (not_isUnknownKey_of_readString (eq_error_of_set h))
  · exact absurd hm (not_isUnknownKey_of_readBoolean (eq_error_of_set h))
  · exact ⟨(Except.error.inj h).symm, by simp_all [knownKeys]⟩

/-- A section that is read holds no unknown key. -/
theorem mem_knownKeys_of_ofValue {entries : Table} {k : String}
    (h : ofValue (.table entries) = .ok style) (hk : k ∈ entries.keys) : k ∈ knownKeys := by
  obtain ⟨e, he, rfl⟩ := List.mem_map.1 hk
  exact forall_of_foldlM_eq_ok (P := (·.1 ∈ knownKeys)) mem_knownKeys_of_set h e he

/-- A key that is reported stands in the section. -/
theorem exists_of_ofValue_eq_error {entries : Table} (hm : m.isUnknownKey)
    (h : ofValue (.table entries) = .error m) :
    ∃ k ∈ entries.keys, m = .unknownBundleSetting k ∧ k ∉ knownKeys := by
  obtain ⟨e, he, hreport⟩ := exists_of_foldlM_eq_error
    (P := fun e => m = .unknownBundleSetting e.1 ∧ e.1 ∉ knownKeys) (eq_of_set_eq_error hm) h
  exact ⟨e.1, List.mem_map_of_mem he, hreport⟩

end BundleStyle

namespace Settings

variable {s s' : Settings} {t : Table} {k : String} {v : Value} {m : Mismatch}

theorem mem_knownKeys_of_set (h : s.set k v = .ok s') : k ∈ knownKeys := by
  unfold set at h
  split at h
  case h_4 => simp at h
  all_goals simp [knownKeys]

theorem exists_ofValue_of_set (h : s.set k v = .ok s') (hk : k = "bundle") :
    ∃ style, BundleStyle.ofValue v = .ok style := by
  subst hk
  exact ⟨_, set_bundle h⟩

/-- The only keys that are reported are that of the entry and those in its section. -/
theorem cases_of_set_eq_error (hm : m.isUnknownKey) (h : s.set k v = .error m) :
    m = .unknownSetting k ∧ k ∉ knownKeys ∨ k = "bundle" ∧ BundleStyle.ofValue v = .error m := by
  unfold set at h
  split at h
  · exact absurd hm (not_isUnknownKey_of_readString (eq_error_of_set h))
  · exact absurd hm (not_isUnknownKey_of_readBoolean (eq_error_of_set h))
  · exact .inr ⟨rfl, eq_error_of_set h⟩
  · exact .inl ⟨(Except.error.inj h).symm, by simp_all [knownKeys]⟩

/-- **A table that is read holds no unknown key.** -/
theorem not_hasUnknownKey_of_ofTable (h : ofTable t = .ok s) : ¬ HasUnknownKey t m := by
  rintro (⟨hmem, hkey⟩ | ⟨hmem, hkey⟩)
  · obtain ⟨e, he, rfl⟩ := List.mem_map.1 hmem
    exact hkey (forall_of_foldlM_eq_ok (P := (·.1 ∈ knownKeys)) mem_knownKeys_of_set h e he)
  · rw [Table.below] at hmem
    split at hmem
    · next entries hentries =>
      have hsection := forall_of_foldlM_eq_ok
        (P := fun e => e.1 = "bundle" → ∃ style, BundleStyle.ofValue e.2 = .ok style)
        exists_ofValue_of_set h
      obtain ⟨style, hstyle⟩ := hsection _ (Table.mem_of_get? hentries) rfl
      exact hkey (BundleStyle.mem_knownKeys_of_ofValue hstyle hmem)
    · simp [Table.keys] at hmem

/-- **A key that is reported is there**, and no setting has it. -/
theorem hasUnknownKey_of_ofTable (ht : t.Sorted) (hbundle : t.IsSection "bundle")
    (hm : m.isUnknownKey) (h : ofTable t = .error m) : HasUnknownKey t m := by
  obtain ⟨⟨k, v⟩, he, hreport⟩ := exists_of_foldlM_eq_error
    (P := fun e => m = .unknownSetting e.1 ∧ e.1 ∉ knownKeys ∨
      e.1 = "bundle" ∧ BundleStyle.ofValue e.2 = .error m) (cases_of_set_eq_error hm) h
  rcases hreport with ⟨rfl, hkey⟩ | ⟨rfl, hvalue⟩
  · exact .atTop (List.mem_map_of_mem he) hkey
  · have hget : t.get? "bundle" = some v := ht.get?_eq_some_of_mem he
    obtain ⟨entries, rfl⟩ := hbundle v hget
    obtain ⟨k, hk, rfl, hkey⟩ := BundleStyle.exists_of_ofValue_eq_error hm hvalue
    exact .inBundle (by rwa [Table.below, hget]) hkey

/-! ## The layers on a disk -/

variable {d : Disk} {files : SettingsFiles} {file : Path}

/-- The file of a layer is there, and this is its table. -/
def IsLoaded (d : Disk) (file : Path) (t : Table) : Prop :=
  d.isFile file ∧ readTable d file = .ok t

theorem layerTable_of_isLoaded (h : IsLoaded d file t) : layerTable d file = t :=
  layerTable_of_readTable h.2

theorem isLoaded_or_layerTable_eq_nil (d : Disk) (file : Path) :
    IsLoaded d file (layerTable d file) ∨ layerTable d file = [] := by
  rw [layerTable]
  split
  · next hfile =>
    cases h : readTable d file with
    | error e => exact .inr rfl
    | ok t => exact .inl ⟨hfile, h⟩
  · exact .inr rfl

theorem readTable_ne_mismatch : readTable d file ≠ .error (.mismatch m) := by
  intro h
  rw [readTable] at h
  cases hread : d.read file with
  | error e =>
    rw [hread] at h
    cases h
  | ok source =>
    rw [hread] at h
    cases hparse : Toml.parse? source with
    | none => simp [hparse, bind, Except.bind, Except.mapError] at h
    | some t => simp [hparse, bind, Except.bind, Except.mapError] at h

theorem addLayer_ne_mismatch {below : Table} {layer : Layer} :
    (addLayer d below layer file).result ≠ .error (.mismatch m) := by
  intro h
  rw [addLayer] at h
  split at h
  · rcases Logged.result_bind_eq_error_iff.1 h with h | ⟨_, _, h⟩
    · exact nomatch h
    rcases Logged.result_bind_eq_error_iff.1 h with h | ⟨_, _, h⟩
    · exact readTable_ne_mismatch h
    · exact nomatch h
  · split at h
    · exact nomatch h
    · exact nomatch h

/-- Reading the layers reports no key: tables are merged before they are looked at. -/
theorem mergedTable_ne_mismatch {layers : List (Layer × Path)} :
    (mergedTable d layers).result ≠ .error (.mismatch m) := by
  rw [mergedTable]
  generalize ([] : Table) = below
  induction layers generalizing below with
  | nil =>
    intro h
    cases h
  | cons l layers ih =>
    intro h
    rw [List.foldlM_cons] at h
    rcases Logged.result_bind_eq_error_iff.1 h with h | ⟨below', _, h⟩
    · exact addLayer_ne_mismatch h
    · exact ih below' h

theorem ofTable_of_ofMerged_eq_error (h : ofMerged t = .error (.mismatch m)) :
    ofTable t = .error m := by
  rw [ofMerged] at h
  cases hread : ofTable t with
  | error m' =>
    rw [hread] at h
    cases h
    rfl
  | ok s =>
    rw [hread] at h
    cases hvalid : s.validate with
    | error i => simp [hvalid, bind, Except.bind, Except.mapError] at h
    | ok s' => simp [hvalid, bind, Except.bind, Except.mapError] at h

/-- The tables of the layers, those of files that are not there among them. -/
theorem wellKeyed_of_mem_layers : ∀ t ∈ files.layers.map (layerTable d ·.2), t.WellKeyed := by
  intro t ht
  obtain ⟨l, _, rfl⟩ := List.mem_map.1 ht
  exact wellKeyed_layerTable d l.2

theorem isSection_of_mem_layers
    (hbundle : ∀ l ∈ files.layers, ∀ t, IsLoaded d l.2 t → t.IsSection "bundle") :
    ∀ t ∈ files.layers.map (layerTable d ·.2), t.IsSection "bundle" := by
  intro t ht
  obtain ⟨l, hl, rfl⟩ := List.mem_map.1 ht
  rcases isLoaded_or_layerTable_eq_nil d l.2 with hloaded | hnil
  · exact hbundle l hl _ hloaded
  · rw [hnil]
    exact nofun

/-- **Unknown keys do not slip through the layers.**  Where the section of the bundle is a table in
every layer that has it, settings are refused if some layer that is loaded holds a key that is no
setting, at the top or in the section, whatever the other layers set.  And a key is reported as
unknown only if some layer holds it. -/
theorem load_refuses_unknown_keys (d : Disk) (files : SettingsFiles)
    (hbundle : ∀ l ∈ files.layers, ∀ t, IsLoaded d l.2 t → t.IsSection "bundle") :
    (∀ l ∈ files.layers, ∀ t m, IsLoaded d l.2 t → HasUnknownKey t m →
      ∃ fault, (load d files).result = .error fault) ∧
    ∀ m, m.isUnknownKey → (load d files).result = .error (.mismatch m) →
      ∃ l ∈ files.layers, ∃ t, IsLoaded d l.2 t ∧ HasUnknownKey t m := by
  have hkeys : ∀ t ∈ files.layers.map (layerTable d ·.2), t.WellKeyed := wellKeyed_of_mem_layers
  have hsections := isSection_of_mem_layers hbundle
  constructor
  · intro l hl t m ht hunknown
    cases hload : (load d files).result with
    | error fault => exact ⟨fault, rfl⟩
    | ok s =>
      obtain ⟨merged, hmerged, hs⟩ := load_eq_ok_iff.1 hload
      obtain ⟨rfl, _⟩ := stacked_of_mergedTable hmerged
      have hmem : t ∈ files.layers.map (layerTable d ·.2) :=
        List.mem_map.2 ⟨l, hl, layerTable_of_isLoaded ht⟩
      exact absurd ((hasUnknownKey_stacked hkeys hsections).2 ⟨t, hmem, hunknown⟩)
        (not_hasUnknownKey_of_ofTable (ofTable_of_ofMerged hs))
  · intro m hm h
    rcases Logged.result_bind_eq_error_iff.1 h with h | ⟨merged, hmerged, h⟩
    · exact absurd h mergedTable_ne_mismatch
    · obtain ⟨rfl, _⟩ := stacked_of_mergedTable hmerged
      have hunknown := hasUnknownKey_of_ofTable (Table.wellKeyed_stacked hkeys).sorted
        (Table.isSection_stacked hkeys hsections) hm (ofTable_of_ofMerged_eq_error h)
      obtain ⟨t, ht, hunknown⟩ := (hasUnknownKey_stacked hkeys hsections).1 hunknown
      obtain ⟨l, hl, rfl⟩ := List.mem_map.1 ht
      rcases isLoaded_or_layerTable_eq_nil d l.2 with hloaded | hnil
      · exact ⟨l, hl, _, hloaded, hunknown⟩
      · exact absurd (hnil ▸ hunknown) not_hasUnknownKey_nil

namespace Misspelt

/-! ## A misspelt key below another layer -/

def userText : String := "[bundle]\nmodule_header = false\n"

def projectText : String := "[bundle]\nmodule_headers = true\n"

def disk : Disk where
  nodes := [(["user.toml"], .file userText.toUTF8), (["p"], .directory),
    (["p", "aopack.toml"], .file projectText.toUTF8)]
  workingDirectory := []

def twoFiles : SettingsFiles where
  user? := some ⟨"user.toml"⟩
  projectDirectory? := some ⟨"p"⟩

def userTable : Table :=
  [("bundle", .table [("module_header", .boolean false)])]

def projectTable : Table :=
  [("bundle", .table [("module_headers", .boolean true)])]

theorem layers_twoFiles :
    twoFiles.layers = [(.user, ⟨"user.toml"⟩), (.project, ⟨"p/aopack.toml"⟩)] := by
  cbv

theorem read_files :
    disk.read ⟨"user.toml"⟩ = .ok userText ∧ disk.read ⟨"p/aopack.toml"⟩ = .ok projectText := by
  decide +kernel

theorem readTable_user : readTable disk ⟨"user.toml"⟩ = .ok userTable :=
  readTable_eq_ok_iff.2 ⟨userText, read_files.1, by cbv⟩

theorem readTable_project : readTable disk ⟨"p/aopack.toml"⟩ = .ok projectTable :=
  readTable_eq_ok_iff.2 ⟨projectText, read_files.2, by cbv⟩

theorem isLoaded_user : IsLoaded disk ⟨"user.toml"⟩ userTable :=
  ⟨isFile_of_readTable readTable_user, readTable_user⟩

/-- The project sets the key that the user meant. -/
theorem isSection_bundle {l : Layer × Path} (hl : l ∈ twoFiles.layers) {t : Table}
    (ht : IsLoaded disk l.2 t) : t.IsSection "bundle" := by
  rw [layers_twoFiles] at hl
  have hcases : t = userTable ∨ t = projectTable := by
    fin_cases hl
    · exact .inl (Except.ok.inj (ht.2.symm.trans readTable_user))
    · exact .inr (Except.ok.inj (ht.2.symm.trans readTable_project))
  rcases hcases with rfl | rfl <;> exact fun v hv => ⟨_, (Option.some.inj hv).symm⟩

theorem hasUnknownKey_user : HasUnknownKey userTable (.unknownBundleSetting "module_header") :=
  .inBundle List.mem_cons_self (by decide)

end Misspelt

/-- The user misspells a key of the bundle and the project sets the right one: settings are refused,
since the merged section holds both. -/
theorem load_refuses_misspelt_key :
    IsLoaded Misspelt.disk ⟨"user.toml"⟩ Misspelt.userTable ∧
      HasUnknownKey Misspelt.userTable (.unknownBundleSetting "module_header") ∧
      ∃ fault, (load Misspelt.disk Misspelt.twoFiles).result = .error fault := by
  have hmem : (Layer.user, (⟨"user.toml"⟩ : Path)) ∈ Misspelt.twoFiles.layers := by
    rw [Misspelt.layers_twoFiles]
    exact List.mem_cons_self
  obtain ⟨hrefused, _⟩ := load_refuses_unknown_keys Misspelt.disk Misspelt.twoFiles
    fun _ hl _ ht => Misspelt.isSection_bundle hl ht
  exact ⟨Misspelt.isLoaded_user, Misspelt.hasUnknownKey_user,
    hrefused _ hmem _ _ Misspelt.isLoaded_user Misspelt.hasUnknownKey_user⟩

end Settings

end LuaBundle
