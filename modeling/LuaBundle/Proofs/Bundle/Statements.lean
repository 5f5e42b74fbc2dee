import LuaBundle.Bundle
import LuaBundle.Proofs.Path.Places

/-!
# The statements of a bundle

* `result_ofModules` — which bundle is made of a list of modules that has an entry;
* `statements_ofModules` — modules at different places have one block of statements each, in order:
  a wrapper, its call, and a copy for every alias.
-/

set_option autoImplicit false

namespace LuaBundle

/-- What a bundle does for a module that is not the entry. -/
def Module.block (m : Module) : List Statement :=
  .define m.name (Lua.identifierOf m.name) m.source :: .call m.name (Lua.identifierOf m.name) ::
    m.aliases.map (.copy · m.name)

namespace Bundle

variable {b : Bundle} {m entry : Module} {ms : List Module}

theorem statements_addWrapper (b : Bundle) (m : Module) :
    (b.addWrapper m).statements = b.statements ++ m.block := by
  simp [statements, addWrapper, Module.block]

theorem statements_addEntry (b : Bundle) (m : Module) :
    (b.addEntry m).statements = b.statements ++ [.run m.source] := by
  simp [statements, addEntry]

theorem wrapperOfPath?_eq_none_iff {p : Path} :
    b.wrapperOfPath? p = none ↔ ∀ r ∈ b.records, r.kind = .wrapped → ¬ r.path ≈ p := by
  simp only [wrapperOfPath?, List.find?_eq_none, Bool.and_eq_true, beq_iff_eq, not_and,
    Path.equiv_iff]

/-- A wrapper stands at the place of its module only. -/
theorem wrapperOfPath?_addWrapper_eq_none {p : Path} (h : b.wrapperOfPath? p = none)
    (hp : ¬ m.path ≈ p) : (b.addWrapper m).wrapperOfPath? p = none := by
  rw [wrapperOfPath?_eq_none_iff] at h ⊢
  intro r hr hkind
  rcases List.mem_append.1 hr with hr | hr
  · exact h r hr hkind
  · rcases List.mem_cons.1 hr with rfl | hr
    · exact hp
    · obtain ⟨name, _, rfl⟩ := List.mem_map.1 hr
      exact hp

theorem statements_addLibraries (hms : PlacedApart (·.path) ms)
    (hb : ∀ m ∈ ms, b.wrapperOfPath? m.path = none) :
    (b.addLibraries ms).1.statements = b.statements ++ ms.flatMap Module.block := by
  induction ms generalizing b with
  | nil => simp [addLibraries]
  | cons m ms ih =>
    obtain ⟨hm, hms⟩ := List.pairwise_cons.1 hms
    obtain ⟨hbm, hb⟩ := List.forall_mem_cons.1 hb
    have hadd : b.addLibrary m = b.addWrapper m := by rw [addLibrary, hbm]
    have hrest : ∀ n ∈ ms, (b.addWrapper m).wrapperOfPath? n.path = none :=
      fun n hn => wrapperOfPath?_addWrapper_eq_none (hb n hn) (hm n hn)
    rw [addLibraries, hadd, List.flatMap_cons, ← List.append_assoc, ← statements_addWrapper]
    exact ih hms hrest

/-- **The bundle of a list of modules** whose last one is the entry. -/
theorem result_ofModules (style : BundleStyle) (hentry : ms.getLast? = some entry) :
    (ofModules style ms).result
      = .ok ((addLibraries { style } ms.dropLast).1.addEntry entry) := by
  rw [ofModules, hentry]
  simp only [Logged.result_bind, Logged.result_noteAll]
  split <;> split <;> rfl

/-- **The statements of a bundle** of modules at different places. -/
theorem statements_ofModules (style : BundleStyle) (hms : PlacedApart (·.path) ms)
    (hentry : ms.getLast? = some entry) :
    ∃ bundle, (ofModules style ms).result = .ok bundle ∧
      bundle.statements = ms.dropLast.flatMap Module.block ++ [.run entry.source] := by
  refine ⟨_, result_ofModules style hentry, ?_⟩
  have hlib : PlacedApart (·.path) ms.dropLast := hms.sublist (List.dropLast_sublist ms)
  rw [statements_addEntry, statements_addLibraries hlib (by simp [wrapperOfPath?])]
  rfl

end Bundle

end LuaBundle
