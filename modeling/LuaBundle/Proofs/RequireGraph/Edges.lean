import LuaBundle.Proofs.Path.Places
import LuaBundle.RequireGraph
import Mathlib.Data.List.Induction

/-!
# The nodes and edges of a list of modules

`RequireGraph.ofModules` adds nodes and edges one by one.  What comes out does not depend on that:

* `isNodes_ofModules` — the nodes are paths of modules, one for every place that has a module;
* `mem_edges_ofModules` — the edges are the requires of modules whose place has a node.
-/

set_option autoImplicit false

namespace LuaBundle

namespace RequireGraph

/-- The nodes of a graph are different places, and edges join nodes. -/
structure Proper (g : RequireGraph) : Prop where
  nodes : PlacedApart id g.nodes
  edges : ∀ e ∈ g.edges, e.1 ∈ g.nodes ∧ e.2 ∈ g.nodes

variable {g : RequireGraph}

theorem node?_eq_some_iff (h : PlacedApart id g.nodes) {p a : Path} :
    g.node? p = some a ↔ a ∈ g.nodes ∧ a ≈ p :=
  h.find?_eq_some_iff

theorem node?_eq_none_iff {p : Path} : g.node? p = none ↔ ∀ a ∈ g.nodes, ¬ a ≈ p := by
  simp only [node?, List.find?_eq_none, beq_iff_eq, Path.equiv_iff]

/-! ## Nodes -/

theorem nodes_addNode (g : RequireGraph) (p : Path) :
    (g.addNode p).nodes = g.nodes ∨
      (∀ a ∈ g.nodes, ¬ a ≈ p) ∧ (g.addNode p).nodes = g.nodes ++ [p] := by
  unfold addNode
  split
  · exact .inl rfl
  · next h => exact .inr ⟨node?_eq_none_iff.1 h, rfl⟩

theorem placedApart_addNode (h : PlacedApart id g.nodes) (p : Path) :
    PlacedApart id (g.addNode p).nodes := by
  rcases nodes_addNode g p with he | ⟨hp, he⟩
  · rwa [he]
  · rw [he, PlacedApart, List.pairwise_append]
    refine ⟨h, List.pairwise_singleton _ _, fun a ha b hb => ?_⟩
    rw [List.mem_singleton.1 hb]
    exact hp a ha

theorem exists_node_addNode (g : RequireGraph) (p : Path) : ∃ a ∈ (g.addNode p).nodes, a ≈ p := by
  unfold addNode
  split
  · next a ha =>
    exact ⟨a, List.mem_of_find?_eq_some ha, Path.equiv_iff.2 (by simpa using List.find?_some ha)⟩
  · exact ⟨p, by simp, Setoid.refl p⟩

/-- What a list of modules has for nodes: different places, all of them paths of modules, and one
for every module. -/
structure IsNodes (nodes : List Path) (ms : List Module) : Prop where
  apart : PlacedApart id nodes
  of_module : ∀ a ∈ nodes, ∃ m ∈ ms, m.path = a
  exists_node : ∀ m ∈ ms, ∃ a ∈ nodes, a ≈ m.path

/-- The nodes of a list of modules, without edges. -/
def pathsOf (ms : List Module) : RequireGraph :=
  ms.foldl (fun g m => g.addNode m.path) {}

theorem pathsOf_append_singleton (ms : List Module) (m : Module) :
    pathsOf (ms ++ [m]) = (pathsOf ms).addNode m.path := by
  rw [pathsOf, List.foldl_append, List.foldl_cons, List.foldl_nil, ← pathsOf]

theorem isNodes_pathsOf (ms : List Module) : IsNodes (pathsOf ms).nodes ms := by
  induction ms using List.reverseRecOn with
  | nil => exact ⟨.nil, by simp [pathsOf], by simp⟩
  | append_singleton ms m ih =>
    rw [pathsOf_append_singleton]
    generalize pathsOf ms = g at ih ⊢
    refine ⟨placedApart_addNode ih.apart _, fun a ha => ?_, fun n hn => ?_⟩
    · rcases nodes_addNode g m.path with he | ⟨_, he⟩
      · obtain ⟨n, hn, hp⟩ := ih.of_module a (he ▸ ha)
        exact ⟨n, by simp [hn], hp⟩
      · rcases List.mem_append.1 (he ▸ ha) with ha | ha
        · obtain ⟨n, hn, hp⟩ := ih.of_module a ha
          exact ⟨n, by simp [hn], hp⟩
        · exact ⟨m, by simp, (List.mem_singleton.1 ha).symm⟩
    · rcases List.mem_append.1 hn with hn | hn
      · obtain ⟨a, ha, hp⟩ := ih.exists_node n hn
        refine ⟨a, ?_, hp⟩
        rcases nodes_addNode g m.path with he | ⟨_, he⟩ <;> simp [he, ha]
      · rw [List.mem_singleton.1 hn]
        exact exists_node_addNode g m.path

/-! ## Edges -/

/-- The requires of some modules, one after the other. -/
def requiresOf (ms : List Module) : List (Path × Path) :=
  ms.flatMap fun m => m.requires.map (m.path, ·)

theorem ofModules_eq (ms : List Module) :
    ofModules ms = (requiresOf ms).foldl (fun g r => g.addEdge r.1 r.2)
      (pathsOf ms) := by
  simp only [ofModules, pathsOf, requiresOf, List.foldl_flatMap, List.foldl_map]

@[simp]
theorem nodes_addEdge (g : RequireGraph) (p q : Path) : (g.addEdge p q).nodes = g.nodes := by
  rw [addEdge]
  split
  · split <;> rfl
  · rfl

theorem mem_edges_addEdge {p q : Path} {e : Path × Path} :
    e ∈ (g.addEdge p q).edges ↔
      e ∈ g.edges ∨ g.node? p = some e.1 ∧ g.node? q = some e.2 := by
  unfold addEdge
  split
  · next a b ha hb =>
    have heq : (some a = some e.1 ∧ some b = some e.2) ↔ e = (a, b) := by
      rw [Option.some.injEq, Option.some.injEq, Prod.ext_iff, eq_comm, @eq_comm _ b]
    rw [ha, hb, heq]
    split
    · next hm => exact ⟨.inl, fun h => h.elim id (· ▸ hm)⟩
    · simp
  · next hnone =>
    refine ⟨.inl, fun h => h.elim id fun ⟨ha, hb⟩ => ?_⟩
    exact absurd hb (hnone _ _ ha)

theorem nodes_foldl_addEdge (rs : List (Path × Path)) (g : RequireGraph) :
    (rs.foldl (fun g r => g.addEdge r.1 r.2) g).nodes = g.nodes := by
  induction rs generalizing g with
  | nil => rfl
  | cons r rs ih => rw [List.foldl_cons, ih, nodes_addEdge]

theorem mem_edges_foldl_addEdge {rs : List (Path × Path)} {e : Path × Path} :
    e ∈ (rs.foldl (fun g r => g.addEdge r.1 r.2) g).edges ↔
      e ∈ g.edges ∨ ∃ r ∈ rs, g.node? r.1 = some e.1 ∧ g.node? r.2 = some e.2 := by
  induction rs generalizing g with
  | nil => simp
  | cons r rs ih =>
    have hnode (p : Path) : (g.addEdge r.1 r.2).node? p = g.node? p := by
      rw [node?, node?, nodes_addEdge]
    rw [List.foldl_cons, ih, mem_edges_addEdge, or_assoc]
    simp only [hnode, List.mem_cons, exists_eq_or_imp]

/-! ## The graph of a list of modules -/

theorem edges_pathsOf (ms : List Module) : (pathsOf ms).edges = [] := by
  induction ms using List.reverseRecOn with
  | nil => rfl
  | append_singleton ms m ih =>
    rw [pathsOf_append_singleton, addNode]
    split <;> exact ih

/-- **The nodes of a list of modules.** -/
theorem isNodes_ofModules (ms : List Module) : IsNodes (ofModules ms).nodes ms := by
  rw [ofModules_eq, nodes_foldl_addEdge]
  exact isNodes_pathsOf ms

/-- **The edges of a list of modules.** -/
theorem mem_edges_ofModules {ms : List Module} {a b : Path} :
    (a, b) ∈ (ofModules ms).edges ↔
      a ∈ (ofModules ms).nodes ∧ b ∈ (ofModules ms).nodes ∧
        ∃ m ∈ ms, m.path ≈ a ∧ ∃ q ∈ m.requires, q ≈ b := by
  have hapart := (isNodes_ofModules ms).apart
  rw [ofModules_eq, nodes_foldl_addEdge] at hapart ⊢
  rw [mem_edges_foldl_addEdge, edges_pathsOf]
  simp only [List.not_mem_nil, false_or, node?_eq_some_iff hapart]
  constructor
  · rintro ⟨r, hr, ⟨ha, har⟩, hb, hbr⟩
    obtain ⟨m, hm, hr⟩ := List.mem_flatMap.1 hr
    obtain ⟨q, hq, rfl⟩ := List.mem_map.1 hr
    exact ⟨ha, hb, m, hm, Setoid.symm har, q, hq, Setoid.symm hbr⟩
  · rintro ⟨ha, hb, m, hm, hma, q, hq, hqb⟩
    exact ⟨(m.path, q), List.mem_flatMap.2 ⟨m, hm, List.mem_map_of_mem hq⟩,
      ⟨ha, Setoid.symm hma⟩, hb, Setoid.symm hqb⟩

theorem proper_ofModules (ms : List Module) : (ofModules ms).Proper where
  nodes := (isNodes_ofModules ms).apart
  edges e he := by
    have h := mem_edges_ofModules.1 (show (e.1, e.2) ∈ (ofModules ms).edges from he)
    exact ⟨h.1, h.2.1⟩

end RequireGraph

end LuaBundle
