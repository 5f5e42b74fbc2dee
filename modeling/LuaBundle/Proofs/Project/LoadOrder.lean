import LuaBundle.Proofs.Project.Members

/-!
# Load order and circles

The order of a project comes from the walk, its circles from the graph of its modules.

* `Walk.visitEach` — visits one after the other, each of which may fail;
* `violations_subset_cycles` — a module that is loaded before something that it requires lies on a
  circle with it: the walk finished the required file later because it leads back to the module;
* `exists_violation_of_mem_cycles` — every circle has such a module;
* `load_order` — both, and so there are no circles exactly if every module is loaded after all that
  it requires.
-/

set_option autoImplicit false

namespace LuaBundle

open Relation

/-! ## Visits one after the other -/

/-- Continues a walk at some paths, each with a name, whether or not the visits before failed. -/
def Walk.visitEach (s : Scope) (visits : List (String × Path)) (w : Walk) : Walk :=
  visits.foldl (fun w v => (visit s v.1 v.2 w).1) w

theorem Walk.InOrder.visitEach {s : Scope} {w : Walk} (h : InOrder s w)
    (visits : List (String × Path)) : InOrder s (w.visitEach s visits) := by
  induction visits generalizing w with
  | nil => exact h
  | cons v visits ih => exact ih ((visits_visit s v.1 v.2 w).inOrder h)

namespace Project

variable {s : Scope} {base : Path} {w : Walk}

/-! ## Edges and the order -/

/-- Where files lead to a module through finished files, edges lead to it. -/
theorem reflTransGen_edges (h : Walk.Sound s w) {p q : Path} (hq : q ∈ (ofWalk base w).order)
    (hr : ReflTransGen (s.RequiresAmong w.finished) p q) :
    p ∈ (ofWalk base w).order ∧ ReflTransGen (ofWalk base w).graph.Edge p q := by
  induction hr using ReflTransGen.head_induction_on with
  | refl => exact ⟨hq, .refl⟩
  | @head a b hab _ ih =>
    obtain ⟨ha, _, hreq⟩ := hab
    obtain ⟨hb, hbq⟩ := ih
    have haorder : a ∈ (ofWalk base w).order := by
      obtain ⟨text, hread, _⟩ := hreq
      exact (mem_order_ofWalk h).2 ⟨ha, text, hread⟩
    obtain ⟨m, hm, rfl⟩ := List.mem_map.1 haorder
    obtain ⟨d, hd, rfl⟩ := List.mem_map.1 hb
    exact ⟨haorder, .head ((mem_edges_graph h hm hd).2 hreq) hbq⟩

/-- A module that does not stand before one that requires it leads back to that one. -/
theorem reflTransGen_of_idxOf_le (h : Walk.InOrder s w) {a b : Path}
    (he : (a, b) ∈ (ofWalk base w).graph.edges)
    (hle : (ofWalk base w).order.idxOf a ≤ (ofWalk base w).order.idxOf b) :
    ReflTransGen (ofWalk base w).graph.Edge b a := by
  have hends := (proper_graph _).edges _ he
  obtain ⟨m, hm, rfl⟩ := List.mem_map.1 (nodes_graph_subset_order _ hends.1)
  obtain ⟨d, hd, rfl⟩ := List.mem_map.1 (nodes_graph_subset_order _ hends.2)
  have hmo : m.path ∈ (ofWalk base w).order := nodes_graph_subset_order _ hends.1
  have hdo : d.path ∈ (ofWalk base w).order := nodes_graph_subset_order _ hends.2
  rcases Nat.lt_or_eq_of_le hle with hlt | heq
  · have hback := List.pairwise_iff_getElem.1
      (h.finished.sublist (order_sublist_finished base h.sound)) _ _
      (List.idxOf_lt_length_iff.2 hmo) (List.idxOf_lt_length_iff.2 hdo) hlt
    rw [List.getElem_idxOf, List.getElem_idxOf] at hback
    exact (reflTransGen_edges h.sound hmo (hback ((mem_edges_graph h.sound hm hd).1 he))).2
  · rw [(List.idxOf_inj hmo).1 heq]

theorem violations_subset_cycles (h : Walk.InOrder s w) :
    ∀ e ∈ (ofWalk base w).graph.violations (ofWalk base w).order,
      ∃ c ∈ (ofWalk base w).cycles, e.1 ∈ c ∧ e.2 ∈ c := by
  rw [cycles_ofWalk]
  exact (proper_graph _).violations_subset_cycles (placedApart_order base h.sound)
    (nodes_graph_subset_order _) fun _ _ => reflTransGen_of_idxOf_le h

theorem exists_violation_of_mem_cycles (h : Walk.Sound s w) {c : List Path}
    (hc : c ∈ (ofWalk base w).cycles) :
    ∃ e ∈ (ofWalk base w).graph.violations (ofWalk base w).order, e.1 ∈ c ∧ e.2 ∈ c := by
  rw [cycles_ofWalk] at hc
  exact (proper_graph _).exists_mem_violations (placedApart_order base h)
    (nodes_graph_subset_order _) hc

/-! ## Numbers of modules -/

theorem idxOf_path (h : Walk.Sound s w) {i : Nat} (hi : i < (ofWalk base w).modules.length) :
    (ofWalk base w).order.idxOf (ofWalk base w).modules[i].path = i := by
  have hi' : i < (ofWalk base w).order.length := by rwa [order, List.length_map]
  have hget : (ofWalk base w).modules[i].path = (ofWalk base w).order[i] := by simp [order]
  rw [hget, (placedApart_order base h).nodup.idxOf_getElem i hi']

/-- A module's requires of another are broken by the order if the other is not loaded before. -/
theorem mem_violations_iff (h : Walk.Sound s w) {i j : Nat}
    (hi : i < (ofWalk base w).modules.length) (hj : j < (ofWalk base w).modules.length) :
    ((ofWalk base w).modules[i].path, (ofWalk base w).modules[j].path) ∈
        (ofWalk base w).graph.violations (ofWalk base w).order ↔
      s.Requires (ofWalk base w).modules[i].path (ofWalk base w).modules[j].path ∧ i ≤ j := by
  rw [(proper_graph _).mem_violations_iff (placedApart_order base h) (nodes_graph_subset_order _),
    mem_edges_graph h (List.getElem_mem hi) (List.getElem_mem hj), idxOf_path h, idxOf_path h]

theorem cycles_eq_nil_iff (h : Walk.InOrder s w) :
    (ofWalk base w).cycles = [] ↔
      ∀ (i j : Nat) (hi : i < (ofWalk base w).modules.length)
        (hj : j < (ofWalk base w).modules.length),
        (∃ q ∈ (ofWalk base w).modules[i].requires, q ≈ (ofWalk base w).modules[j].path) →
          j < i := by
  have hreq {i : Nat} (hi : i < (ofWalk base w).modules.length) {p : Path} :
      (∃ q ∈ (ofWalk base w).modules[i].requires, q ≈ p) ↔
        s.Requires (ofWalk base w).modules[i].path p :=
    exists_mem_requires_iff h.sound ((mem_modules_ofWalk h.sound).1 (List.getElem_mem hi)).1
  simp only [hreq]
  constructor
  · intro hnil i j hi hj hr
    by_contra hle
    have hv := (mem_violations_iff h.sound hi hj).2 ⟨hr, Nat.le_of_not_lt hle⟩
    obtain ⟨c, hc, _⟩ := violations_subset_cycles h _ hv
    rw [hnil] at hc
    simp at hc
  · intro hlt
    refine List.eq_nil_iff_forall_not_mem.2 fun c hc => ?_
    obtain ⟨⟨a, b⟩, he, _⟩ := exists_violation_of_mem_cycles h.sound hc
    have hends := (proper_graph (ofWalk base w)).edges _ (List.mem_filter.1 he).1
    obtain ⟨m, hm, rfl⟩ := List.mem_map.1 (nodes_graph_subset_order _ hends.1)
    obtain ⟨d, hd, rfl⟩ := List.mem_map.1 (nodes_graph_subset_order _ hends.2)
    obtain ⟨i, hi, rfl⟩ := List.getElem_of_mem hm
    obtain ⟨j, hj, rfl⟩ := List.getElem_of_mem hd
    obtain ⟨hr, hle⟩ := (mem_violations_iff h.sound hi hj).1 he
    exact absurd (hlt i j hi hj hr) (Nat.not_lt_of_le hle)

/-- **Load order and circles match**, whatever was visited and whichever visits failed.  A require
that the order breaks is on a circle, every circle has one, and so there are no circles exactly if
every module comes after all modules that it requires. -/
theorem load_order (s : Scope) (visits : List (String × Path)) :
    let project := ofWalk s.base (Walk.visitEach s visits {})
    let broken := project.graph.violations project.order
    (∀ e ∈ broken, ∃ c ∈ project.cycles, e.1 ∈ c ∧ e.2 ∈ c) ∧
      (∀ c ∈ project.cycles, ∃ e ∈ broken, e.1 ∈ c ∧ e.2 ∈ c) ∧
      (project.cycles = [] ↔
        ∀ (i j : Nat) (hi : i < project.modules.length) (hj : j < project.modules.length),
          (∃ q ∈ project.modules[i].requires, q ≈ project.modules[j].path) → j < i) := by
  have h : Walk.InOrder s (Walk.visitEach s visits {}) := (Walk.InOrder.empty s).visitEach visits
  exact ⟨violations_subset_cycles h, fun _ => exists_violation_of_mem_cycles h.sound,
    cycles_eq_nil_iff h⟩

end Project

end LuaBundle
