import LuaBundle.Project
import LuaBundle.Proofs.Project.FinishOrder
import LuaBundle.Proofs.RequireGraph.Orders

/-!
# What a project has from a walk

A project keeps of what a walk found the local modules whose paths were finished.

* `mem_modules_ofWalk` — these are its modules, and `order_sublist_finished` says that they stay in
  the order in which they were finished;
* `mem_edges_graph` — its graph has an edge from a module to each module that it requires;
* `cycles_ofWalk` — its circles are those of its graph.
-/

set_option autoImplicit false

namespace LuaBundle

open Relation

namespace RequireGraph

variable {ms : List Module}

/-- Every one of some modules at different places is a node. -/
theorem mem_nodes_ofModules (h : PlacedApart (·.path) ms) {p : Path} :
    p ∈ (ofModules ms).nodes ↔ ∃ m ∈ ms, m.path = p := by
  have hn := isNodes_ofModules ms
  refine ⟨hn.of_module p, ?_⟩
  rintro ⟨m, hm, rfl⟩
  obtain ⟨a, ha, he⟩ := hn.exists_node m hm
  obtain ⟨n, hnm, rfl⟩ := hn.of_module a ha
  rwa [← h.eq_of_equiv hnm hm he]

end RequireGraph

namespace Project

variable {s : Scope} {base : Path} {w : Walk}

@[simp] theorem base_ofWalk (base : Path) (w : Walk) : (ofWalk base w).base = base := rfl

/-! ## Modules -/

/-- What was found at the finished paths. -/
theorem mem_filterMap_module? (h : Walk.Sound s w) {m : Module} :
    m ∈ w.finished.filterMap w.module? ↔ m ∈ w.found ∧ m.path ∈ w.finished := by
  simp only [List.mem_filterMap, h.module?_eq_some_iff]
  constructor
  · rintro ⟨p, hp, hm, he⟩
    obtain ⟨n, hn, rfl⟩ := List.mem_map.1 (h.finished_found hp)
    rw [h.placedApart.eq_of_equiv hm hn he]
    exact ⟨hn, hp⟩
  · rintro ⟨hm, hp⟩
    exact ⟨m.path, hp, hm, Setoid.refl _⟩

theorem map_path_filterMap_module? (h : Walk.Sound s w) :
    (w.finished.filterMap w.module?).map (·.path) = w.finished := by
  rw [List.map_filterMap]
  refine (List.filterMap_congr fun p hp => ?_).trans List.filterMap_some
  obtain ⟨m, hm, rfl⟩ := List.mem_map.1 (h.finished_found hp)
  rw [h.module?_eq_some_iff.2 ⟨hm, Setoid.refl _⟩]
  rfl

theorem placedApart_filterMap_module? (h : Walk.Sound s w) :
    PlacedApart (·.path) (w.finished.filterMap w.module?) := by
  refine List.pairwise_map.1 (?_ : List.Pairwise (fun p q : Path => ¬ p ≈ q) _)
  rw [map_path_filterMap_module? h]
  exact h.finished

theorem mem_modules_ofWalk (h : Walk.Sound s w) {m : Module} :
    m ∈ (ofWalk base w).modules ↔ m ∈ w.found ∧ m.path ∈ w.finished ∧ m.isLocal := by
  rw [ofWalk, List.mem_filter, mem_filterMap_module? h, and_assoc]

/-- A module has the text at its path. -/
theorem read_of_mem_modules (h : Walk.Sound s w) {m : Module} (hm : m ∈ (ofWalk base w).modules) :
    m.path ∈ w.finished ∧ s.files.read m.path = .ok m.source := by
  obtain ⟨hm, hp, hlocal⟩ := (mem_modules_ofWalk h).1 hm
  obtain ⟨text, hsource⟩ := Option.isSome_iff_exists.1 hlocal
  have hload := h.loaded m hm
  rw [hsource] at hload
  refine ⟨hp, ?_⟩
  rw [Walk.read_of_load hload, Module.source, hsource, Option.getD_some]

/-- A finished path that can be read is a module's. -/
theorem exists_module_of_read (base : Path) (h : Walk.Sound s w) {p : Path} (hp : p ∈ w.finished)
    {text : String} (hr : s.files.read p = .ok text) :
    ∃ m ∈ (ofWalk base w).modules, m.path = p ∧ m.source = text := by
  obtain ⟨m, hm, rfl⟩ := List.mem_map.1 (h.finished_found hp)
  have hsource := h.source?_eq hm hr
  refine ⟨m, (mem_modules_ofWalk h).2 ⟨hm, hp, ?_⟩, rfl, ?_⟩
  · rw [Module.isLocal, hsource, Option.isSome_some]
  · rw [Module.source, hsource, Option.getD_some]

/-- The places of the modules are the finished ones that can be read. -/
theorem mem_order_ofWalk (h : Walk.Sound s w) {p : Path} :
    p ∈ (ofWalk base w).order ↔ p ∈ w.finished ∧ ∃ text, s.files.read p = .ok text := by
  rw [order, List.mem_map]
  constructor
  · rintro ⟨m, hm, rfl⟩
    obtain ⟨hp, hread⟩ := read_of_mem_modules h hm
    exact ⟨hp, _, hread⟩
  · rintro ⟨hp, text, hread⟩
    obtain ⟨m, hm, hpath, _⟩ := exists_module_of_read base h hp hread
    exact ⟨m, hm, hpath⟩

theorem order_sublist_finished (base : Path) (h : Walk.Sound s w) :
    (ofWalk base w).order.Sublist w.finished := by
  rw [← map_path_filterMap_module? h]
  exact List.filter_sublist.map _

theorem placedApart_order (base : Path) (h : Walk.Sound s w) :
    PlacedApart id (ofWalk base w).order :=
  h.finished.sublist (order_sublist_finished base h)

theorem placedApart_modules (base : Path) (h : Walk.Sound s w) :
    PlacedApart (·.path) (ofWalk base w).modules :=
  List.pairwise_map.1 (placedApart_order base h)

/-! ## Requires -/

/-- What was found at a path requires what the file there requires. -/
theorem exists_mem_requires_iff (h : Walk.Sound s w) {m : Module} (hm : m ∈ w.found) {p : Path} :
    (∃ q ∈ m.requires, q ≈ p) ↔ s.Requires m.path p := by
  have hload := h.loaded m hm
  rw [h.requires m hm]
  constructor
  · rintro ⟨q, hq, he⟩
    cases hsource : m.source? with
    | none => simp [hsource] at hq
    | some text =>
      rw [hsource, Option.map_some, Option.getD_some, Scope.map_fst_children, List.mem_eraseDups,
        List.mem_map] at hq
      obtain ⟨call, hc, rfl⟩ := hq
      exact ⟨text, Walk.read_of_load (hsource ▸ hload), call, hc, he⟩
  · rintro ⟨text, hread, call, hc, he⟩
    rw [h.source?_eq hm hread, Option.map_some, Option.getD_some, Scope.map_fst_children]
    exact ⟨_, List.mem_eraseDups.2 (List.mem_map_of_mem hc), he⟩

theorem mem_edges_graph (h : Walk.Sound s w) {m d : Module} (hm : m ∈ (ofWalk base w).modules)
    (hd : d ∈ (ofWalk base w).modules) :
    (m.path, d.path) ∈ (ofWalk base w).graph.edges ↔ s.Requires m.path d.path := by
  have hapart := placedApart_modules base h
  rw [graph, RequireGraph.mem_edges_ofModules,
    ← exists_mem_requires_iff h ((mem_modules_ofWalk h).1 hm).1]
  constructor
  · rintro ⟨_, _, n, hn, he, hreq⟩
    rwa [← hapart.eq_of_equiv hn hm he]
  · intro hreq
    exact ⟨(RequireGraph.mem_nodes_ofModules hapart).2 ⟨m, hm, rfl⟩,
      (RequireGraph.mem_nodes_ofModules hapart).2 ⟨d, hd, rfl⟩, m, hm, Setoid.refl _, hreq⟩

theorem proper_graph (p : Project) : p.graph.Proper :=
  RequireGraph.proper_ofModules _

theorem nodes_graph_subset_order (p : Project) : p.graph.nodes ⊆ p.order := fun a ha => by
  obtain ⟨m, hm, rfl⟩ := (RequireGraph.isNodes_ofModules p.modules).of_module a ha
  exact List.mem_map_of_mem hm

theorem cycles_ofWalk (base : Path) (w : Walk) :
    (ofWalk base w).cycles = (ofWalk base w).graph.cycles := by
  have hcycles : (ofWalk base w).cycles =
      if (ofWalk base w).graph.hasCycle then (ofWalk base w).graph.cycles else [] := rfl
  rw [hcycles]
  split
  · rfl
  · next hno => rw [(proper_graph _).cycles_eq_nil_iff.2 hno]

end Project

end LuaBundle
