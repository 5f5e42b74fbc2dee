import LuaBundle.Proofs.Bundle.Statements
import LuaBundle.Proofs.RequireGraph.Renaming

/-!
# Renamed bundles

A bundle compares the paths of its modules, and does not write them down.  So the bundle of modules
at other paths has the same text and the same records, but for the paths in these.

* `paths_ofModules` — the paths in the records are those of the modules;
* `rename_addLibraries` — adding modules one by one;
* `result_ofModules_renamed` — the bundle of renamed modules.
-/

set_option autoImplicit false

namespace LuaBundle

/-- The same record of a file at another path. -/
def Record.rename (f : Path → Path) (r : Record) : Record :=
  { r with path := f r.path }

namespace Bundle

/-- The same bundle of files at other paths. -/
def rename (f : Path → Path) (b : Bundle) : Bundle :=
  { b with records := b.records.map (Record.rename f) }

/-- **The text of a bundle does not depend on paths.** -/
theorem source_rename (f : Path → Path) (b : Bundle) : (b.rename f).source = b.source :=
  rfl

variable {f : Path → Path} {P : Path → Prop} {b : Bundle} {m : Module} {ms : List Module} {p : Path}

theorem rename_wrapperOfPath? (hf : Path.IsRenaming f P) (hb : ∀ r ∈ b.records, P r.path)
    (hp : P p) :
    (b.rename f).wrapperOfPath? (f p) = (b.wrapperOfPath? p).map (Record.rename f) := by
  rw [wrapperOfPath?, wrapperOfPath?, rename, List.find?_map]
  refine congrArg _ (List.find?_congr fun r hr => ?_)
  exact congrArg (r.kind == .wrapped && ·) (hf.steps_beq (hb r hr) hp)

theorem rename_addWrapper (f : Path → Path) (b : Bundle) (m : Module) :
    (b.rename f).addWrapper (m.rename f) = (b.addWrapper m).rename f := by
  simp only [addWrapper, rename, List.map_append, List.map_cons, List.map_map]
  rfl

theorem rename_addAliases (f : Path → Path) (b : Bundle) (wrapper : Record) (m : Module) :
    (b.rename f).addAliases (wrapper.rename f) (m.rename f) =
      (b.addAliases wrapper m).rename f := by
  simp only [addAliases, rename, List.map_append, List.map_map]
  rfl

theorem rename_addEntry (f : Path → Path) (b : Bundle) (m : Module) :
    (b.rename f).addEntry (m.rename f) = (b.addEntry m).rename f := by
  simp only [addEntry, rename, List.map_append, List.map_singleton]
  rfl

/-- What a module adds has the module's path. -/
theorem paths_addLibrary (hb : ∀ r ∈ b.records, P r.path) (hm : P m.path) :
    ∀ r ∈ (b.addLibrary m).records, P r.path := by
  intro r hr
  unfold addLibrary at hr
  split at hr
  · rcases List.mem_append.1 hr with hr | hr
    · exact hb r hr
    · obtain ⟨name, _, rfl⟩ := List.mem_map.1 hr
      exact hm
  · rcases List.mem_append.1 hr with hr | hr
    · exact hb r hr
    · rcases List.mem_cons.1 hr with rfl | hr
      · exact hm
      · obtain ⟨name, _, rfl⟩ := List.mem_map.1 hr
        exact hm

theorem paths_addLibraries (hb : ∀ r ∈ b.records, P r.path) (hms : ∀ m ∈ ms, P m.path) :
    ∀ r ∈ (b.addLibraries ms).1.records, P r.path := by
  induction ms generalizing b with
  | nil => exact hb
  | cons m ms ih =>
    obtain ⟨hm, hms⟩ := List.forall_mem_cons.1 hms
    exact ih (paths_addLibrary hb hm) hms

/-- The records of a bundle have the paths of its modules. -/
theorem paths_ofModules {style : BundleStyle} (h : (ofModules style ms).result = .ok b)
    (hms : ∀ m ∈ ms, P m.path) : ∀ r ∈ b.records, P r.path := by
  cases hlast : ms.getLast? with
  | none =>
    rw [List.getLast?_eq_none_iff.1 hlast] at h
    cases h
  | some entry =>
    rw [result_ofModules style hlast] at h
    obtain rfl := Except.ok.inj h
    have hlibraries : ∀ m ∈ ms.dropLast, P m.path :=
      fun m hm => hms m ((List.dropLast_sublist ms).subset hm)
    refine List.forall_mem_append.2 ⟨paths_addLibraries (by simp) hlibraries, fun r hr => ?_⟩
    rw [List.mem_singleton.1 hr]
    exact hms entry (List.mem_of_getLast? hlast)

section

variable (hf : Path.IsRenaming f P)
include hf

theorem rename_addLibrary (hb : ∀ r ∈ b.records, P r.path) (hm : P m.path) :
    (b.rename f).addLibrary (m.rename f) = (b.addLibrary m).rename f := by
  unfold addLibrary
  rw [show (m.rename f).path = f m.path from rfl, rename_wrapperOfPath? hf hb hm]
  cases b.wrapperOfPath? m.path with
  | none => exact rename_addWrapper f b m
  | some wrapper => exact rename_addAliases f b wrapper m

theorem rename_addLibraries (hb : ∀ r ∈ b.records, P r.path) (hms : ∀ m ∈ ms, P m.path) :
    ((b.rename f).addLibraries (ms.map (Module.rename f))).1 = (b.addLibraries ms).1.rename f := by
  induction ms generalizing b with
  | nil => rfl
  | cons m ms ih =>
    obtain ⟨hm, hms⟩ := List.forall_mem_cons.1 hms
    rw [List.map_cons, addLibraries, addLibraries, rename_addLibrary hf hb hm]
    exact ih (paths_addLibrary hb hm) hms

/-- **The bundle of renamed modules.** -/
theorem result_ofModules_renamed (style : BundleStyle) (hms : ∀ m ∈ ms, P m.path) :
    (ofModules style (ms.map (Module.rename f))).result =
      (ofModules style ms).result.map (rename f) := by
  cases hlast : ms.getLast? with
  | none =>
    rw [List.getLast?_eq_none_iff.1 hlast]
    rfl
  | some entry =>
    have hlast' : (ms.map (Module.rename f)).getLast? = some (entry.rename f) := by
      rw [List.getLast?_map, hlast]
      rfl
    have hlibraries : ∀ m ∈ ms.dropLast, P m.path :=
      fun m hm => hms m ((List.dropLast_sublist ms).subset hm)
    have hempty : rename f { style } = { style } := rfl
    have hadded := rename_addLibraries hf (b := { style }) (by simp) hlibraries
    rw [hempty] at hadded
    rw [result_ofModules style hlast, result_ofModules style hlast', ← List.map_dropLast, hadded,
      rename_addEntry]
    rfl

end

end Bundle

end LuaBundle
