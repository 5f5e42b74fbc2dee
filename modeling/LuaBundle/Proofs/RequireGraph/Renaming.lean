import LuaBundle.Proofs.Path.Relocation
import LuaBundle.Proofs.RequireGraph.Cycles
import Mathlib.Data.List.Find

/-!
# Renamed graphs

A graph of requires is made by comparing places, and its circles are worked out on the numbers of
nodes.  So modules at other paths have the same graph under other names, as long as the renaming
keeps their places apart.

* `rename_ofModules` — the graph of renamed modules is the renamed graph;
* `rename_cycles` — its circles are the renamed circles, in the same order.
-/

set_option autoImplicit false

namespace LuaBundle

/-- The same module at another path. -/
def Module.rename (f : Path → Path) (m : Module) : Module :=
  { m with path := f m.path, requires := m.requires.map f }

/-- The paths of a module and of what it requires are all of one kind. -/
def Module.PathsIn (P : Path → Prop) (m : Module) : Prop :=
  P m.path ∧ ∀ q ∈ m.requires, P q

variable {f : Path → Path} {P : Path → Prop}

namespace RequireGraph

variable {g : RequireGraph} {p q : Path} {ms : List Module}

/-- The same graph under other names. -/
def rename (f : Path → Path) (g : RequireGraph) : RequireGraph where
  nodes := g.nodes.map f
  edges := g.edges.map (Prod.map f f)

/-- Nodes and ends of edges are of one kind. -/
structure PathsIn (P : Path → Prop) (g : RequireGraph) : Prop where
  nodes : ∀ a ∈ g.nodes, P a
  edges : ∀ e ∈ g.edges, P e.1 ∧ P e.2

theorem length_rename_nodes (f : Path → Path) (g : RequireGraph) :
    (g.rename f).nodes.length = g.nodes.length :=
  List.length_map f

theorem requiresOf_rename (f : Path → Path) (ms : List Module) :
    requiresOf (ms.map (Module.rename f)) = (requiresOf ms).map (Prod.map f f) := by
  simp only [requiresOf, List.flatMap_map, List.map_flatMap, Module.rename, List.map_map]
  rfl

/-- The kind of the modules' paths is that of the graph's. -/
theorem pathsIn_ofModules (hms : ∀ m ∈ ms, m.PathsIn P) : (ofModules ms).PathsIn P := by
  have hnodes : ∀ a ∈ (ofModules ms).nodes, P a := by
    intro a ha
    obtain ⟨m, hm, rfl⟩ := (isNodes_ofModules ms).of_module a ha
    exact (hms m hm).1
  exact ⟨hnodes, fun e he => ((proper_ofModules ms).edges e he).imp (hnodes _) (hnodes _)⟩

/-- The members of circles are nodes. -/
theorem PathsIn.cycles (hg : g.PathsIn P) : ∀ c ∈ g.cycles, ∀ a ∈ c, P a := by
  intro c hc a ha
  obtain ⟨i, _, _, rfl⟩ := mem_cycles_iff.1 hc
  obtain ⟨j, _, hj⟩ := List.mem_filterMap.1 ha
  exact hg.nodes a (List.mem_of_getElem? hj)

section

variable (hf : Path.IsRenaming f P)
include hf

/-! ## Building a graph -/

theorem rename_node? (hg : ∀ a ∈ g.nodes, P a) (hp : P p) :
    (g.rename f).node? (f p) = (g.node? p).map f := by
  rw [node?, node?, rename, List.find?_map]
  exact congrArg _ (List.find?_congr fun a ha => hf.steps_beq (hg a ha) hp)

theorem rename_addNode (hg : ∀ a ∈ g.nodes, P a) (hp : P p) :
    (g.rename f).addNode (f p) = (g.addNode p).rename f := by
  rw [addNode, addNode, rename_node? hf hg hp]
  cases g.node? p with
  | some a => rfl
  | none => simp [rename]

theorem mem_rename_edges (hg : g.PathsIn P) {a b : Path} (ha : P a) (hb : P b) :
    (f a, f b) ∈ (g.rename f).edges ↔ (a, b) ∈ g.edges := by
  constructor
  · intro h
    obtain ⟨e, he, hab⟩ := List.mem_map.1 h
    obtain ⟨h1, h2⟩ := hg.edges e he
    obtain ⟨ha', hb'⟩ := Prod.mk.inj hab
    rwa [← hf.eq_of_eq h1 ha ha', ← hf.eq_of_eq h2 hb hb']
  · exact fun h => List.mem_map_of_mem (f := Prod.map f f) h

theorem rename_addEdge (hg : g.PathsIn P) (hp : P p) (hq : P q) :
    (g.rename f).addEdge (f p) (f q) = (g.addEdge p q).rename f := by
  unfold addEdge
  rw [rename_node? hf hg.nodes hp, rename_node? hf hg.nodes hq]
  cases ha : g.node? p with
  | none => rfl
  | some a =>
    cases hb : g.node? q with
    | none => rfl
    | some b =>
      have hPa := hg.nodes a (List.mem_of_find?_eq_some ha)
      have hPb := hg.nodes b (List.mem_of_find?_eq_some hb)
      simp only [Option.map_some, mem_rename_edges hf hg hPa hPb]
      split
      · rfl
      · simp [rename]

theorem rename_pathsOf (hms : ∀ m ∈ ms, m.PathsIn P) :
    pathsOf (ms.map (Module.rename f)) = (pathsOf ms).rename f := by
  induction ms using List.reverseRecOn with
  | nil => rfl
  | append_singleton ms m ih =>
    obtain ⟨hms, hm⟩ := List.forall_mem_append.1 hms
    have hnodes : ∀ a ∈ (pathsOf ms).nodes, P a := by
      intro a ha
      obtain ⟨n, hn, rfl⟩ := (isNodes_pathsOf ms).of_module a ha
      exact (hms n hn).1
    rw [List.map_append, List.map_singleton, pathsOf_append_singleton, ih hms,
      pathsOf_append_singleton]
    exact rename_addNode hf hnodes (hm m (List.mem_singleton_self m)).1

theorem rename_foldl_addEdge {rs : List (Path × Path)} (hg : g.PathsIn P)
    (hrs : ∀ r ∈ rs, P r.1 ∧ P r.2) :
    (rs.map (Prod.map f f)).foldl (fun g r => g.addEdge r.1 r.2) (g.rename f) =
      (rs.foldl (fun g r => g.addEdge r.1 r.2) g).rename f := by
  induction rs generalizing g with
  | nil => rfl
  | cons r rs ih =>
    obtain ⟨hr, hrs⟩ := List.forall_mem_cons.1 hrs
    have hnext : (g.addEdge r.1 r.2).PathsIn P := by
      refine ⟨by simpa using hg.nodes, fun e he => ?_⟩
      rcases mem_edges_addEdge.1 he with he | ⟨h1, h2⟩
      · exact hg.edges e he
      · exact ⟨hg.nodes _ (List.mem_of_find?_eq_some h1), hg.nodes _ (List.mem_of_find?_eq_some h2)⟩
    rw [List.map_cons, List.foldl_cons, List.foldl_cons, ← ih hnext hrs]
    dsimp only [Prod.map_fst, Prod.map_snd]
    rw [rename_addEdge hf hg hr.1 hr.2]

/-- **The graph of renamed modules.** -/
theorem rename_ofModules (hms : ∀ m ∈ ms, m.PathsIn P) :
    ofModules (ms.map (Module.rename f)) = (ofModules ms).rename f := by
  have hpaths : (pathsOf ms).PathsIn P := by
    refine ⟨fun a ha => ?_, by simp [edges_pathsOf]⟩
    obtain ⟨m, hm, rfl⟩ := (isNodes_pathsOf ms).of_module a ha
    exact (hms m hm).1
  have hrequires : ∀ r ∈ requiresOf ms, P r.1 ∧ P r.2 := by
    intro r hr
    obtain ⟨m, hm, hr⟩ := List.mem_flatMap.1 hr
    obtain ⟨q, hq, rfl⟩ := List.mem_map.1 hr
    exact ⟨(hms m hm).1, (hms m hm).2 q hq⟩
  rw [ofModules_eq, ofModules_eq, requiresOf_rename f, rename_pathsOf hf hms]
  exact rename_foldl_addEdge hf hpaths hrequires

/-! ## Circles -/

theorem rename_next (hg : g.PathsIn P) {a : Path} (ha : P a) :
    (g.rename f).next (f a) = (g.next a).map f := by
  simp only [next, rename, List.filterMap_map, List.map_filterMap]
  refine List.filterMap_congr fun e he => ?_
  by_cases hea : e.1 = a
  · simp [hea]
  · have hne : f e.1 ≠ f a := fun h => hea (hf.eq_of_eq (hg.edges e he).1 ha h)
    simp [hea, hne]

/-- Renamed nodes have the same numbers. -/
theorem idxOf_map {l : List Path} (hl : ∀ a ∈ l, P a) {b : Path} (hb : P b) :
    (l.map f).idxOf (f b) = l.idxOf b := by
  induction l with
  | nil => rfl
  | cons a l ih =>
    obtain ⟨ha, hl⟩ := List.forall_mem_cons.1 hl
    rw [List.map_cons, List.idxOf_cons, List.idxOf_cons, ih hl]
    by_cases hab : a = b
    · rw [hab, beq_self_eq_true, beq_self_eq_true]
    · have hne : f a ≠ f b := fun h => hab (hf.eq_of_eq ha hb h)
      rw [beq_false_of_ne hab, beq_false_of_ne hne]

theorem rename_edgeRows (hg : g.PathsIn P) : (g.rename f).edgeRows = g.edgeRows := by
  have hrow : ∀ a ∈ g.nodes, (g.rename f).row (f a) = g.row a := by
    intro a ha
    rw [row, row, rename_next hf hg (hg.nodes a ha), List.map_map]
    refine congrArg bitsOf (List.map_congr_left fun b hb => ?_)
    exact idxOf_map hf hg.nodes (hg.edges _ (mem_next.1 hb)).2
  rw [edgeRows, edgeRows]
  refine congrArg List.toArray ?_
  rw [rename, List.map_map]
  exact List.map_congr_left hrow

theorem rename_walkRows (hg : g.PathsIn P) : (g.rename f).walkRows = g.walkRows := by
  rw [walkRows, walkRows, length_rename_nodes, rename_edgeRows hf hg]

theorem rename_circles (hg : g.PathsIn P) : (g.rename f).circles = g.circles := by
  -- circles are made of numbers, and of the renamed nodes these look only at how many there are
  have hcircle : (g.rename f).circle = g.circle := by
    funext walks i
    rw [circle, circle, length_rename_nodes]
  rw [circles, circles, rename_walkRows hf hg, hcircle, length_rename_nodes]

/-- **The circles of a renamed graph.** -/
theorem rename_cycles (hg : g.PathsIn P) : (g.rename f).cycles = g.cycles.map (·.map f) := by
  rw [cycles, cycles, rename_circles hf hg, List.map_map]
  refine List.map_congr_left fun members _ => ?_
  simp only [Function.comp_apply, List.map_filterMap, rename, List.getElem?_map]

end

end RequireGraph

end LuaBundle
