import LuaBundle.Proofs.RequireGraph.Orders

/-!
# What a graph lists

The nodes and edges of a list of modules come in the order in which they first occur there, and each
comes once.  Paths are compared by their places; a node is spelled as the first module at its place
is.

* `map_steps_nodes`, `map_places_edges` — the nodes and the edges, place by place;
* `map_steps_dependencies` — what a path requires is what its edges lead to, in the order of the
  nodes;
* `mem_violations_iff_isLast` — the edges that an order breaks, where it may repeat paths and leave
  them out;
* `graph_of_modules` — all that a graph lists, and what it says about an order.
-/

set_option autoImplicit false

namespace LuaBundle

namespace RequireGraph

variable {g : RequireGraph} {ms : List Module} {order : List Path} {a b p q : Path}

/-! ## First occurrences -/

section EraseDups

variable {α : Type} [BEq α] [LawfulBEq α]

theorem eraseDups_concat (l : List α) (x : α) :
    (l ++ [x]).eraseDups = if x ∈ l then l.eraseDups else l.eraseDups ++ [x] := by
  rw [List.eraseDups_append]
  by_cases hx : x ∈ l
  · simp [List.removeAll, hx]
  · simp [List.removeAll, hx, List.eraseDups_cons]

end EraseDups

/-! ## Nodes -/

/-- The places of some modules, in the order in which they first occur. -/
def modulePlaces (ms : List Module) : List (List Step) :=
  (ms.map (·.path.steps)).eraseDups

theorem node?_isSome_iff : (g.node? p).isSome ↔ p.steps ∈ g.nodes.map Path.steps := by
  simp [node?]

theorem map_steps_addNode (g : RequireGraph) (p : Path) : (g.addNode p).nodes.map Path.steps =
    if p.steps ∈ g.nodes.map Path.steps then g.nodes.map Path.steps
    else g.nodes.map Path.steps ++ [p.steps] := by
  rw [addNode]
  split
  · next a ha =>
    rw [if_pos (node?_isSome_iff.1 (by rw [ha]; rfl))]
  · next hnone =>
    have hnew : p.steps ∉ g.nodes.map Path.steps := by
      rw [← node?_isSome_iff, hnone]
      simp
    rw [if_neg hnew, List.map_append, List.map_singleton]

theorem map_steps_pathsOf (ms : List Module) :
    (pathsOf ms).nodes.map Path.steps = modulePlaces ms := by
  induction ms using List.reverseRecOn with
  | nil => rfl
  | append_singleton ms m ih =>
    rw [pathsOf_append_singleton, map_steps_addNode, ih, modulePlaces, modulePlaces,
      List.map_append, List.map_singleton, eraseDups_concat]
    simp only [List.mem_eraseDups]

/-- **The nodes are the places of the modules**, in the order in which they first occur. -/
theorem map_steps_nodes (ms : List Module) :
    (ofModules ms).nodes.map Path.steps = modulePlaces ms := by
  rw [ofModules_eq, nodes_foldl_addEdge, map_steps_pathsOf]

/-- A node is spelled as the first module at its place is. -/
theorem find?_of_mem_nodes (ha : a ∈ (ofModules ms).nodes) :
    (ms.map (·.path)).find? (fun p => p ≈ a) = some a := by
  rw [ofModules_eq, nodes_foldl_addEdge] at ha
  induction ms using List.reverseRecOn with
  | nil => simp [pathsOf] at ha
  | append_singleton ms m ih =>
    rw [List.map_append, List.find?_append]
    rw [pathsOf_append_singleton] at ha
    rcases nodes_addNode (pathsOf ms) m.path with he | ⟨hnew, he⟩
    · rw [ih (he ▸ ha), Option.some_or]
    · rcases List.mem_append.1 (he ▸ ha) with ha | ha
      · rw [ih ha, Option.some_or]
      · obtain rfl := List.mem_singleton.1 ha
        -- no earlier module is at the place of `m`
        have hnone : (ms.map (·.path)).find? (fun p => p ≈ m.path) = none := by
          refine List.find?_eq_none.2 fun p hp => ?_
          obtain ⟨n, hn, rfl⟩ := List.mem_map.1 hp
          obtain ⟨b, hb, hbn⟩ := (isNodes_pathsOf ms).exists_node n hn
          simpa using fun h => hnew b hb (Setoid.trans hbn h)
        rw [hnone, Option.none_or]
        exact List.find?_singleton ▸ if_pos (decide_eq_true (Setoid.refl m.path))

/-! ## Edges -/

/-- The places that an edge joins. -/
def places (e : Path × Path) : List Step × List Step :=
  (e.1.steps, e.2.steps)

/-- An edge is known by the places that it joins. -/
theorem Proper.places_mem_iff (h : g.Proper) (ha : a ∈ g.nodes) (hb : b ∈ g.nodes) :
    (a.steps, b.steps) ∈ g.edges.map places ↔ (a, b) ∈ g.edges := by
  constructor
  · intro hmem
    obtain ⟨⟨c, d⟩, he, hplaces⟩ := List.mem_map.1 hmem
    obtain ⟨hc, hd⟩ := h.edges _ he
    obtain ⟨hca, hdb⟩ := Prod.mk.inj hplaces
    obtain rfl : c = a := h.nodes.eq_of_equiv hc ha (Path.equiv_iff.2 hca)
    obtain rfl : d = b := h.nodes.eq_of_equiv hd hb (Path.equiv_iff.2 hdb)
    exact he
  · exact fun he => List.mem_map_of_mem he

theorem Proper.addEdge (h : g.Proper) (p q : Path) : (g.addEdge p q).Proper where
  nodes := by rw [nodes_addEdge]; exact h.nodes
  edges e he := by
    rw [nodes_addEdge]
    rcases mem_edges_addEdge.1 he with he | ⟨ha, hb⟩
    · exact h.edges e he
    · exact ⟨((node?_eq_some_iff h.nodes).1 ha).1, ((node?_eq_some_iff h.nodes).1 hb).1⟩

/-- Both places of a pair have a node. -/
abbrev Joins (g : RequireGraph) (pair : List Step × List Step) : Prop :=
  pair.1 ∈ g.nodes.map Path.steps ∧ pair.2 ∈ g.nodes.map Path.steps

/-- An edge is added for two places with a node that no edge joins yet. -/
theorem Proper.map_places_addEdge (h : g.Proper) (p q : Path) :
    (g.addEdge p q).edges.map places =
      if g.Joins (places (p, q)) ∧ places (p, q) ∉ g.edges.map places then
        g.edges.map places ++ [places (p, q)]
      else g.edges.map places := by
  rw [RequireGraph.addEdge]
  split
  · next a b ha hb =>
    obtain ⟨hamem, hap⟩ := (node?_eq_some_iff h.nodes).1 ha
    obtain ⟨hbmem, hbq⟩ := (node?_eq_some_iff h.nodes).1 hb
    have hplaces : places (p, q) = places (a, b) :=
      Prod.ext (Path.equiv_iff.1 hap).symm (Path.equiv_iff.1 hbq).symm
    have hjoins : g.Joins (places (a, b)) :=
      ⟨List.mem_map_of_mem hamem, List.mem_map_of_mem hbmem⟩
    have hmem : places (a, b) ∈ g.edges.map places ↔ (a, b) ∈ g.edges :=
      h.places_mem_iff hamem hbmem
    rw [hplaces]
    by_cases he : (a, b) ∈ g.edges
    · rw [if_pos he, if_neg fun hn => hn.2 (hmem.2 he)]
    · rw [if_neg he, if_pos ⟨hjoins, fun hn => he (hmem.1 hn)⟩, List.map_append,
        List.map_singleton]
  · next hnone =>
    rw [if_neg]
    rintro ⟨⟨hp, hq⟩, _⟩
    obtain ⟨a, ha⟩ := Option.isSome_iff_exists.1 (node?_isSome_iff.2 hp)
    obtain ⟨b, hb⟩ := Option.isSome_iff_exists.1 (node?_isSome_iff.2 hq)
    exact hnone a b ha hb

/-- Requires are added one by one, each between places that have a node, and each once. -/
theorem Proper.map_places_foldl_addEdge (h : g.Proper) (hnone : g.edges = [])
    (rs : List (Path × Path)) :
    (rs.foldl (fun g r => g.addEdge r.1 r.2) g).Proper ∧
      (rs.foldl (fun g r => g.addEdge r.1 r.2) g).edges.map places =
        ((rs.map places).filter (fun pair => g.Joins pair)).eraseDups := by
  induction rs using List.reverseRecOn with
  | nil => exact ⟨h, by simp [hnone]⟩
  | append_singleton rs r ih =>
    obtain ⟨hproper, hedges⟩ := ih
    rw [List.foldl_append, List.foldl_cons, List.foldl_nil]
    refine ⟨hproper.addEdge _ _, ?_⟩
    have hsame : (rs.foldl (fun g r => g.addEdge r.1 r.2) g).Joins (places r) ↔
        g.Joins (places r) := by
      simp only [Joins, nodes_foldl_addEdge]
    rw [hproper.map_places_addEdge, hedges, List.map_append, List.filter_append,
      List.map_singleton, List.filter_singleton]
    by_cases hj : g.Joins (places r)
    · rw [decide_eq_true hj, cond_true, eraseDups_concat]
      by_cases hmem : places r ∈ (rs.map places).filter fun pair => g.Joins pair
      · rw [if_pos hmem, if_neg fun hn => hn.2 (List.mem_eraseDups.2 hmem)]
      · rw [if_neg hmem, if_pos ⟨hsame.2 hj, fun hn => hmem (List.mem_eraseDups.1 hn)⟩]
    · rw [decide_eq_false hj, cond_false, List.append_nil, if_neg fun hn => hj (hsame.1 hn.1)]

/-- The places that the requires between some modules join, in the order in which they first
occur. -/
def requiredPlaces (ms : List Module) : List (List Step × List Step) :=
  (((requiresOf ms).map places).filter (·.2 ∈ modulePlaces ms)).eraseDups

theorem fst_mem_modulePlaces {pair : List Step × List Step}
    (h : pair ∈ (requiresOf ms).map places) : pair.1 ∈ modulePlaces ms := by
  obtain ⟨r, hr, rfl⟩ := List.mem_map.1 h
  obtain ⟨m, hm, hr⟩ := List.mem_flatMap.1 hr
  obtain ⟨q, _, rfl⟩ := List.mem_map.1 hr
  exact List.mem_eraseDups.2 (List.mem_map_of_mem hm)

/-- **The edges are the requires between places of modules**, in the order in which they first
occur. -/
theorem map_places_edges (ms : List Module) :
    (ofModules ms).edges.map places = requiredPlaces ms := by
  have hproper : (pathsOf ms).Proper := ⟨(isNodes_pathsOf ms).apart, by simp [edges_pathsOf]⟩
  rw [ofModules_eq, (hproper.map_places_foldl_addEdge (edges_pathsOf ms) _).2, requiredPlaces]
  congr 1
  refine List.filter_congr fun pair hpair => decide_eq_decide.2 ?_
  rw [Joins, map_steps_pathsOf]
  exact and_iff_right (fst_mem_modulePlaces hpair)

/-! ## Neighbours -/

/-- **What a path requires is what its edges lead to**, in the order of the nodes. -/
theorem map_steps_dependencies (ms : List Module) (p : Path) :
    ((ofModules ms).dependencies p).map Path.steps =
      (modulePlaces ms).filter (fun q => (p.steps, q) ∈ requiredPlaces ms) := by
  have hproper := proper_ofModules ms
  rw [← map_steps_nodes, ← map_places_edges]
  generalize ofModules ms = g at hproper ⊢
  rw [List.filter_map, dependencies]
  cases ha : g.node? p with
  | some a =>
    obtain ⟨hamem, hap⟩ := (node?_eq_some_iff hproper.nodes).1 ha
    refine congrArg _ (List.filter_congr fun b hb => decide_eq_decide.2 ?_)
    rw [mem_next, ← Path.equiv_iff.1 hap, hproper.places_mem_iff hamem hb]
  | none =>
    refine (List.map_eq_nil_iff.2 (List.filter_eq_nil_iff.2 fun b _ hb => ?_)).symm
    -- an edge from the place of `p` would start at a node there
    obtain ⟨e, he, hplaces⟩ := List.mem_map.1 (of_decide_eq_true hb)
    exact node?_eq_none_iff.1 ha e.1 (hproper.edges e he).1
      (Path.equiv_iff.2 (Prod.mk.inj hplaces).1)

theorem dependencies_subset (g : RequireGraph) (p : Path) : g.dependencies p ⊆ g.nodes := by
  rw [dependencies]
  split
  · exact List.nil_subset _
  · exact List.filter_subset_self _

/-! ## Orders that repeat paths -/

theorem mem_violations_iff_isLast {e : Path × Path} : e ∈ g.violations order ↔
    e ∈ g.edges ∧ ∃ i j, IsLast order e.1 i ∧ IsLast order e.2 j ∧ ¬ j < i := by
  rw [violations, List.mem_filter]
  refine and_congr_right fun _ => ?_
  simp only [← lastPosition?_eq_some_iff_isLast]
  cases lastPosition? order e.1 <;> cases lastPosition? order e.2 <;> simp

/-! ## All that a graph lists -/

/-- **What the graph of a list of modules lists.**  Modules may repeat a path, with other requires
and in another spelling; they may require a path twice, and paths of no module.

There is one node for every place of a module, in the order in which the places first occur, spelled
as it is there first.  There is one edge for every pair of a module's place and a place that is
required there and has a module, in the order in which these pairs first occur; edges join nodes.
What a path requires is what its edges lead to, once each and in the order of the modules.  And an
order of loading, which may repeat paths, leave them out and have others, breaks the edges with both
ends in it whose second end does not come last before the first end does: each once, and in the
order of the edges. -/
theorem graph_of_modules (ms : List Module) (order : List Path) :
    let g := ofModules ms
    (g.nodes.map Path.steps = modulePlaces ms ∧
      ∀ a ∈ g.nodes, (ms.map (·.path)).find? (fun p => p ≈ a) = some a) ∧
    (g.edges.map places = requiredPlaces ms ∧ ∀ e ∈ g.edges, e.1 ∈ g.nodes ∧ e.2 ∈ g.nodes) ∧
    (∀ p, (g.dependencies p).map Path.steps =
        (modulePlaces ms).filter (fun q => (p.steps, q) ∈ requiredPlaces ms) ∧
      g.dependencies p ⊆ g.nodes) ∧
    (g.violations order).Sublist g.edges ∧
    ∀ e, e ∈ g.violations order ↔
      e ∈ g.edges ∧ ∃ i j, IsLast order e.1 i ∧ IsLast order e.2 j ∧ ¬ j < i := by
  intro g
  exact ⟨⟨map_steps_nodes ms, fun _ => find?_of_mem_nodes⟩,
    ⟨map_places_edges ms, (proper_ofModules ms).edges⟩,
    fun p => ⟨map_steps_dependencies ms p, dependencies_subset g p⟩,
    List.filter_sublist, fun _ => mem_violations_iff_isLast⟩

end RequireGraph

end LuaBundle
