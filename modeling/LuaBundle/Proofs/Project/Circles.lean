import LuaBundle.Proofs.Project.Members

/-!
# The report of circles

A graph lists its circles; what the list says about the modules that the graph was made from is said
here without nodes, edges or numbers.

* `nodes_ofModules_pairwise` — nodes come in the order in which their places first occur among the
  modules;
* `transGen_requiresAmong_iff` — a chain of requires between places is a walk between their nodes;
* `Proper.placedApart_cycles` and `pairwise_cycles` — no place is reported twice, and the order of
  the nodes is kept in the circles and between them;
* `cycles_ofModules` — the report is exact, and a graph without a report can be put in order.
-/

set_option autoImplicit false

namespace LuaBundle

open Relation

namespace RequireGraph

variable {ms : List Module} {g : RequireGraph} {a b p q : Path}

/-! ## The order of the nodes -/

/-- The number of the first module at a place. -/
def firstIndex (ms : List Module) (p : Path) : Nat :=
  ms.findIdx fun m => m.path ≈ p

theorem firstIndex_lt_length (h : ∃ m ∈ ms, m.path ≈ p) : firstIndex ms p < ms.length :=
  List.findIdx_lt_length.2 (by simpa using h)

theorem firstIndex_append (h : ∃ m ∈ ms, m.path ≈ p) (more : List Module) :
    firstIndex (ms ++ more) p = firstIndex ms p := by
  have hlt := firstIndex_lt_length h
  rw [firstIndex] at hlt
  rw [firstIndex, List.findIdx_append, if_pos hlt, firstIndex]

/-- **Nodes are in the order of the modules.** -/
theorem nodes_ofModules_pairwise (ms : List Module) :
    (ofModules ms).nodes.Pairwise fun a b => firstIndex ms a < firstIndex ms b := by
  rw [ofModules_eq, nodes_foldl_addEdge]
  induction ms using List.reverseRecOn with
  | nil => exact .nil
  | append_singleton ms m ih =>
    have hnodes := isNodes_pathsOf ms
    have hplace : ∀ a ∈ (pathsOf ms).nodes, ∃ m ∈ ms, m.path ≈ a := fun a ha =>
      (hnodes.of_module a ha).imp fun _ hn => ⟨hn.1, Path.equiv_of_eq hn.2⟩
    have hold : (pathsOf ms).nodes.Pairwise fun a b =>
        firstIndex (ms ++ [m]) a < firstIndex (ms ++ [m]) b := by
      refine ih.imp_of_mem fun ha hb hab => ?_
      rwa [firstIndex_append (hplace _ ha), firstIndex_append (hplace _ hb)]
    rw [pathsOf_append_singleton]
    rcases nodes_addNode (pathsOf ms) m.path with he | ⟨hnew, he⟩
    · rwa [he]
    · -- no module before `m` is at its place
      have hlast : ms.length ≤ firstIndex (ms ++ [m]) m.path := by
        refine List.le_findIdx_of_not (by simp) fun i hi => decide_eq_false fun hm => ?_
        rw [List.getElem_append_left hi] at hm
        obtain ⟨a, ha, hae⟩ := hnodes.exists_node _ (List.getElem_mem hi)
        exact hnew a ha (Setoid.trans hae hm)
      rw [he, List.pairwise_append]
      refine ⟨hold, List.pairwise_singleton _ _, fun a ha b hb => ?_⟩
      rw [List.mem_singleton.1 hb, firstIndex_append (hplace a ha)]
      exact Nat.lt_of_lt_of_le (firstIndex_lt_length (hplace a ha)) hlast

/-! ## Chains of requires -/

/-- A module at a place requires another place, and some module is there. -/
def RequiresAmong (ms : List Module) (p q : Path) : Prop :=
  (∃ m ∈ ms, m.path ≈ p ∧ ∃ r ∈ m.requires, r ≈ q) ∧ ∃ n ∈ ms, n.path ≈ q

theorem requiresAmong_iff :
    RequiresAmong ms p q ↔ ∃ a b, a ≈ p ∧ b ≈ q ∧ (ofModules ms).Edge a b := by
  have hnodes := isNodes_ofModules ms
  constructor
  · rintro ⟨⟨m, hm, hmp, r, hr, hrq⟩, n, hn, hnq⟩
    obtain ⟨a, ha, ham⟩ := hnodes.exists_node m hm
    obtain ⟨b, hb, hbn⟩ := hnodes.exists_node n hn
    have hbq : b ≈ q := Setoid.trans hbn hnq
    exact ⟨a, b, Setoid.trans ham hmp, hbq, mem_edges_ofModules.2
      ⟨ha, hb, m, hm, Setoid.symm ham, r, hr, Setoid.trans hrq (Setoid.symm hbq)⟩⟩
  · rintro ⟨a, b, hap, hbq, he⟩
    obtain ⟨_, hb, m, hm, hma, r, hr, hrb⟩ := mem_edges_ofModules.1 he
    obtain ⟨n, hn, rfl⟩ := hnodes.of_module b hb
    exact ⟨⟨m, hm, Setoid.trans hma hap, r, hr, Setoid.trans hrb hbq⟩, n, hn, hbq⟩

/-- **A chain of requires is a walk.** -/
theorem transGen_requiresAmong_iff :
    TransGen (RequiresAmong ms) p q ↔ ∃ a b, a ≈ p ∧ b ≈ q ∧ (ofModules ms).Leads a b := by
  constructor
  · intro h
    induction h with
    | single h =>
      obtain ⟨a, b, ha, hb, he⟩ := requiresAmong_iff.1 h
      exact ⟨a, b, ha, hb, .single he⟩
    | tail _ h ih =>
      obtain ⟨a, b, ha, hb, hab⟩ := ih
      obtain ⟨b', c, hb', hc, he⟩ := requiresAmong_iff.1 h
      -- the walk so far and the last edge meet in one node, since a place has only one
      have hproper := proper_ofModules ms
      obtain rfl : b = b' := hproper.nodes.eq_of_equiv (hproper.mem_nodes_of_leads hab).2
        (hproper.edges _ he).1 (Setoid.trans hb (Setoid.symm hb'))
      exact ⟨a, c, ha, hc, hab.tail he⟩
  · rintro ⟨a, b, ha, hb, hab⟩
    induction hab generalizing q with
    | single he => exact .single (requiresAmong_iff.2 ⟨a, _, ha, hb, he⟩)
    | tail _ he ih =>
      exact (ih (Setoid.refl _)).tail (requiresAmong_iff.2 ⟨_, _, Setoid.refl _, hb, he⟩)

/-! ## The circles -/

/-- Nodes are on one circle if they lead to each other. -/
theorem Proper.exists_cycle_iff (h : g.Proper) :
    (∃ c ∈ g.cycles, a ∈ c ∧ b ∈ c) ↔ g.Leads a b ∧ g.Leads b a := by
  constructor
  · rintro ⟨c, hc, ha, hb⟩
    obtain ⟨r, _, hmem⟩ := h.exists_of_mem_cycles hc
    obtain ⟨hra, har⟩ := (hmem a).1 ha
    obtain ⟨hrb, hbr⟩ := (hmem b).1 hb
    exact ⟨har.trans hrb, hbr.trans hra⟩
  · rintro ⟨hab, hba⟩
    obtain ⟨c, hc, ha⟩ := h.exists_mem_cycles (hab.trans hba)
    obtain ⟨r, _, hmem⟩ := h.exists_of_mem_cycles hc
    obtain ⟨hra, har⟩ := (hmem a).1 ha
    exact ⟨c, hc, ha, (hmem b).2 ⟨hra.trans hab, hba.trans har⟩⟩

/-- Nodes at one place are one node. -/
theorem Proper.eq_of_mem_cycles (h : g.Proper) {c d : List Path} (hc : c ∈ g.cycles)
    (hd : d ∈ g.cycles) (ha : a ∈ c) (hb : b ∈ d) (he : a ≈ b) : a = b := by
  have hnode : ∀ c ∈ g.cycles, ∀ a ∈ c, a ∈ g.nodes := fun c hc a ha =>
    (h.mem_nodes_of_leads (h.exists_cycle_iff.1 ⟨c, hc, ha, ha⟩).1).1
  exact h.nodes.eq_of_equiv (hnode c hc a ha) (hnode d hd b hb) he

theorem head?_filterMap_nodes {i : Nat} {members : List Nat} (hhead : members.head? = some i)
    (hi : i < g.nodes.length) :
    (members.filterMap (g.nodes[·]?)).head? = some g.nodes[i] := by
  obtain ⟨rest, rfl⟩ := List.head?_eq_some_iff.1 hhead
  rw [List.filterMap_cons_some (List.getElem?_eq_getElem hi), List.head?_cons]

/-- **The report keeps the order of the nodes**, inside of the circles and from one first member to
the next. -/
theorem pairwise_cycles {R : Path → Path → Prop} (hR : g.nodes.Pairwise R) :
    (∀ c ∈ g.cycles, c.Pairwise R) ∧
      g.cycles.Pairwise fun c d => ∀ a ∈ c.head?, ∀ b ∈ d.head?, R a b := by
  have hnumbers : ∀ {i j : Nat}, i < j → ∀ a ∈ g.nodes[i]?, ∀ b ∈ g.nodes[j]?, R a b := by
    intro i j hij a ha b hb
    obtain ⟨hi, rfl⟩ := List.getElem?_eq_some_iff.1 ha
    obtain ⟨hj, rfl⟩ := List.getElem?_eq_some_iff.1 hb
    exact List.pairwise_iff_getElem.1 hR i j hi hj hij
  constructor
  · intro c hc
    obtain ⟨i, _, _, rfl⟩ := mem_cycles_iff.1 hc
    exact List.pairwise_filterMap.2 ((List.pairwise_lt_range.filter _).imp hnumbers)
  · rw [cycles, circles, List.pairwise_map]
    refine List.pairwise_filterMap.2 (List.pairwise_lt_range.imp_of_mem ?_)
    intro i j hi hj hij c hc d hd
    have hmembers : ∀ {i : Nat} {c : List Nat}, i ∈ List.range g.nodes.length →
        c ∈ (if (g.circle g.walkRows i).head? = some i then some (g.circle g.walkRows i)
          else none) →
        (c.filterMap (g.nodes[·]?)).head? = g.nodes[i]? := by
      intro i c hi hc
      rw [Option.mem_def, Option.ite_none_right_eq_some] at hc
      obtain ⟨hhead, hc⟩ := hc
      have hi := List.mem_range.1 hi
      rw [← Option.some.inj hc, head?_filterMap_nodes hhead hi, List.getElem?_eq_getElem hi]
    rw [hmembers hi hc, hmembers hj hd]
    exact hnumbers hij

/-- A node is on one circle. -/
theorem Proper.cycle_eq (h : g.Proper) {c d : List Path} (hc : c ∈ g.cycles) (hd : d ∈ g.cycles)
    (hac : a ∈ c) (had : a ∈ d) : c = d := by
  obtain ⟨i, _, _, rfl⟩ := mem_cycles_iff.1 hc
  obtain ⟨j, _, _, rfl⟩ := mem_cycles_iff.1 hd
  obtain ⟨k, hk, hka⟩ := List.mem_filterMap.1 hac
  obtain ⟨l, hl, hla⟩ := List.mem_filterMap.1 had
  obtain rfl : k = l := (h.idxOf_eq hka).symm.trans (h.idxOf_eq hla)
  rw [← h.circle_eq hk, ← h.circle_eq hl]

/-- **No place is reported twice.** -/
theorem Proper.placedApart_cycles (h : g.Proper) : PlacedApart id g.cycles.flatten := by
  have hnodes : g.nodes.Pairwise (· ≠ ·) := h.nodes.nodup
  obtain ⟨hinside, hheads⟩ := pairwise_cycles hnodes
  refine List.pairwise_flatten.2
    ⟨fun c hc => ?_, hheads.imp_of_mem fun hc hd hcd a ha b hb he => ?_⟩
  · exact (hinside c hc).imp_of_mem fun ha hb hne he => hne (h.eq_of_mem_cycles hc hc ha hb he)
  · -- a node on both circles would make them one, but their first members differ
    obtain rfl : a = b := h.eq_of_mem_cycles hc hd ha hb he
    obtain rfl := h.cycle_eq hc hd ha hb
    obtain ⟨first, rest, rfl⟩ := List.exists_cons_of_ne_nil (List.ne_nil_of_mem ha)
    exact hcd first rfl first rfl rfl

/-! ## The report -/

/-- Places share a circle exactly when chains of requires lead from each to the other. -/
theorem exists_cycle_iff_chains {ms : List Module} {p q : Path} :
    (∃ c ∈ (ofModules ms).cycles, (∃ a ∈ c, a ≈ p) ∧ ∃ b ∈ c, b ≈ q) ↔
      TransGen (RequiresAmong ms) p q ∧ TransGen (RequiresAmong ms) q p := by
  have h := proper_ofModules ms
  simp only [transGen_requiresAmong_iff]
  constructor
  · rintro ⟨c, hc, ⟨a, ha, hap⟩, b, hb, hbq⟩
    obtain ⟨hab, hba⟩ := h.exists_cycle_iff.1 ⟨c, hc, ha, hb⟩
    exact ⟨⟨a, b, hap, hbq, hab⟩, b, a, hbq, hap, hba⟩
  · rintro ⟨⟨a, b, hap, hbq, hab⟩, b', a', hbq', hap', hba⟩
    have hends := h.mem_nodes_of_leads hab
    have hends' := h.mem_nodes_of_leads hba
    obtain rfl : a = a' := h.nodes.eq_of_equiv hends.1 hends'.2
      (Setoid.trans hap (Setoid.symm hap'))
    obtain rfl : b = b' := h.nodes.eq_of_equiv hends.2 hends'.1
      (Setoid.trans hbq (Setoid.symm hbq'))
    obtain ⟨c, hc, ha, hb⟩ := h.exists_cycle_iff.2 ⟨hab, hba⟩
    exact ⟨c, hc, ⟨a, ha, hap⟩, b, hb, hbq⟩

/-- **The report of circles is exact.**  Two places are on one circle if each of them is led to by
requires from the other, and a place is on some circle if a non-empty chain of requires leads from
it to itself; no place is reported twice, and circles are never empty.  The members of a circle, and
the circles by their first members, come in the order in which the modules were given.  A graph has
a cycle if there is something to report, and if no order of its nodes is without violations.  So it
loses nothing that a project first asks whether there is a cycle. -/
theorem cycles_ofModules (ms : List Module) :
    let g := ofModules ms
    let chain := TransGen (RequiresAmong ms)
    let before := fun p q : Path => firstIndex ms p < firstIndex ms q
    (∀ p q, (∃ c ∈ g.cycles, (∃ a ∈ c, a ≈ p) ∧ ∃ b ∈ c, b ≈ q) ↔ chain p q ∧ chain q p) ∧
      PlacedApart id g.cycles.flatten ∧ [] ∉ g.cycles ∧
      (∀ c ∈ g.cycles, (∀ a ∈ c, ∃ m ∈ ms, m.path = a) ∧ c.Pairwise before) ∧
      (g.cycles.Pairwise fun c d => ∀ a ∈ c.head?, ∀ b ∈ d.head?, before a b) ∧
      (g.hasCycle ↔ g.cycles ≠ []) ∧
      (g.hasCycle ↔ ∀ order : List Path, order.Perm g.nodes → g.violations order ≠ []) ∧
      ∀ (base : Path) (w : Walk), (Project.ofWalk base w).modules = ms →
        (Project.ofWalk base w).cycles = g.cycles := by
  have h := proper_ofModules ms
  obtain ⟨hinside, hheads⟩ := pairwise_cycles (nodes_ofModules_pairwise ms)
  refine ⟨fun p q => exists_cycle_iff_chains, h.placedApart_cycles, fun hnil => ?_,
    fun c hc => ⟨fun a ha => ?_, hinside c hc⟩,
    hheads, ?_, h.hasCycle_iff_violations, fun base w hms => ?_⟩
  · obtain ⟨_, hmem, _⟩ := h.exists_of_mem_cycles hnil
    simp at hmem
  · have hnode := (h.mem_nodes_of_leads (h.exists_cycle_iff.1 ⟨c, hc, ha, ha⟩).1).1
    exact (isNodes_ofModules ms).of_module a hnode
  · rw [Ne, h.cycles_eq_nil_iff, not_not]
  · rw [Project.cycles_ofWalk, Project.graph, hms]

/-- Two modules in a circle, one that requires itself, and one that leads to all of them. -/
example : (ofModules [
    { name := "b", path := ⟨"b"⟩, requires := [⟨"a"⟩] },
    { name := "a", path := ⟨"a"⟩, requires := [⟨"b"⟩] },
    { name := "s", path := ⟨"s"⟩, requires := [⟨"s"⟩, ⟨"a"⟩] },
    { name := "m", path := ⟨"m"⟩, requires := [⟨"a"⟩, ⟨"s"⟩] }]).cycles =
      [[⟨"b"⟩, ⟨"a"⟩], [⟨"s"⟩]] := by
  decide +kernel

end RequireGraph

end LuaBundle
