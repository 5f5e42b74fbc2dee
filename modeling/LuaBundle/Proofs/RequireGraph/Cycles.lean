import LuaBundle.Proofs.RequireGraph.Edges
import Mathlib.Data.List.Basic
import Mathlib.Logic.Relation

/-!
# Walks and circles

A node leads to another if there is a non-empty walk along edges between them.  The graph works this
out on the numbers of nodes, by letting walks pass through one more number in every round.

* `Rows.holds_foldl_through_iff` — after a round for every number that steps can start from, the
  rows hold the transitive closure of what they held before;
* `holds_walkRows_iff` — so they tell which nodes lead to each other;
* `hasCycle_iff` — the graph has a cycle if some node leads to itself;
* `exists_of_mem_cycles` — the members of a circle are the nodes that one of them leads to and is
  led to by;
* `exists_mem_cycles` — every node that leads to itself is on a circle.
-/

set_option autoImplicit false

namespace LuaBundle

open Relation

namespace RequireGraph

/-! ## Closures of rows -/

namespace Rows

variable {rows : Rows} {ks : List Nat} {i j k : Nat}

theorem foldl_through_append_singleton (rows : Rows) (ks : List Nat) (k : Nat) :
    (ks ++ [k]).foldl through rows = (ks.foldl through rows).through k := by
  rw [List.foldl_append, List.foldl_cons, List.foldl_nil]

/-- What is joined in some rounds was a walk before. -/
theorem transGen_of_holds (h : (ks.foldl through rows).holds i j) :
    TransGen (fun i j => rows.holds i j) i j := by
  induction ks using List.reverseRecOn generalizing i j with
  | nil => exact .single h
  | append_singleton ks k ih =>
    rw [foldl_through_append_singleton, holds_through, Bool.or_eq_true, Bool.and_eq_true] at h
    rcases h with h | ⟨hi, hj⟩
    · exact ih h
    · exact (ih hi).trans (ih hj)

theorem holds_foldl_of_holds (h : rows.holds i j) : (ks.foldl through rows).holds i j := by
  induction ks using List.reverseRecOn with
  | nil => exact h
  | append_singleton ks k ih =>
    rw [foldl_through_append_singleton, holds_through, ih, Bool.true_or]

/-- A number that had its round can be passed through.  The last round matters only where one of the
two parts was joined in it, and then both ends are joined through its number at once. -/
theorem holds_foldl_trans (hk : k ∈ ks) (hi : (ks.foldl through rows).holds i k)
    (hj : (ks.foldl through rows).holds k j) : (ks.foldl through rows).holds i j := by
  induction ks using List.reverseRecOn generalizing i j k with
  | nil => simp at hk
  | append_singleton ks last ih =>
    simp only [foldl_through_append_singleton, holds_through, Bool.or_eq_true,
      Bool.and_eq_true] at hi hj ⊢
    rcases List.mem_append.1 hk with hk | hk
    · rcases hi with hi | ⟨hi, hlast⟩
      · rcases hj with hj | ⟨hlast, hj⟩
        · exact .inl (ih hk hi hj)
        · exact .inr ⟨ih hk hi hlast, hj⟩
      · rcases hj with hj | ⟨_, hj⟩
        · exact .inr ⟨hi, ih hk hlast hj⟩
        · exact .inr ⟨hi, hj⟩
    · obtain rfl := List.mem_singleton.1 hk
      exact .inr ⟨hi.elim id And.left, hj.elim id And.right⟩

/-- **The rounds make the transitive closure.** -/
theorem holds_foldl_through_iff (hks : ∀ i j, rows.holds i j → i ∈ ks) :
    (ks.foldl through rows).holds i j ↔ TransGen (fun i j => rows.holds i j) i j := by
  refine ⟨transGen_of_holds, fun h => ?_⟩
  induction h using TransGen.head_induction_on with
  | single h => exact holds_foldl_of_holds h
  | @head a b h hb ih =>
    obtain ⟨c, hc, _⟩ := TransGen.head'_iff.1 hb
    exact holds_foldl_trans (hks _ _ hc) (holds_foldl_of_holds h) ih

end Rows

/-! ## Nodes that lead to each other -/

/-- A node requires another. -/
abbrev Edge (g : RequireGraph) (a b : Path) : Prop :=
  (a, b) ∈ g.edges

/-- There is a non-empty walk along edges. -/
def Leads (g : RequireGraph) : Path → Path → Prop :=
  TransGen g.Edge

variable {g : RequireGraph} {a b : Path} {i j : Nat}

theorem mem_next : b ∈ g.next a ↔ (a, b) ∈ g.edges := by
  simp [next]

theorem Proper.idxOf_eq (h : g.Proper) (hi : g.nodes[i]? = some a) : g.nodes.idxOf a = i := by
  obtain ⟨hlt, rfl⟩ := List.getElem?_eq_some_iff.1 hi
  exact h.nodes.nodup.idxOf_getElem i hlt

theorem Proper.holds_edgeRows_iff (h : g.Proper) :
    g.edgeRows.holds i j ↔
      ∃ a b, g.nodes[i]? = some a ∧ g.nodes[j]? = some b ∧ (a, b) ∈ g.edges := by
  have hrow : g.edgeRows.holds i j ↔
      ∃ a, g.nodes[i]? = some a ∧ ∃ b, (a, b) ∈ g.edges ∧ g.nodes.idxOf b = j := by
    cases hi : g.nodes[i]? with
    | none => simp [edgeRows, Rows.holds, hi]
    | some a => simp [edgeRows, Rows.holds, hi, row, mem_next]
  rw [hrow]
  constructor
  · rintro ⟨a, ha, b, hb, rfl⟩
    exact ⟨a, b, ha, List.getElem?_idxOf (h.edges _ hb).2, hb⟩
  · rintro ⟨a, b, ha, hb, he⟩
    exact ⟨a, ha, b, he, h.idxOf_eq hb⟩

/-- **The rows of walks tell which nodes lead to each other.** -/
theorem Proper.holds_walkRows_iff (h : g.Proper) :
    g.walkRows.holds i j ↔
      ∃ a b, g.nodes[i]? = some a ∧ g.nodes[j]? = some b ∧ g.Leads a b := by
  have hstart : ∀ i j, g.edgeRows.holds i j → i ∈ List.range g.nodes.length := by
    intro i j hij
    obtain ⟨a, _, ha, _⟩ := h.holds_edgeRows_iff.1 hij
    exact List.mem_range.2 (List.getElem?_eq_some_iff.1 ha).1
  rw [walkRows, Rows.holds_foldl_through_iff hstart]
  constructor
  · intro hij
    induction hij with
    | single he =>
      obtain ⟨a, b, ha, hb, he⟩ := h.holds_edgeRows_iff.1 he
      exact ⟨a, b, ha, hb, .single he⟩
    | tail _ he ih =>
      obtain ⟨a, b, ha, hb, hab⟩ := ih
      obtain ⟨b', c, hb', hc, he⟩ := h.holds_edgeRows_iff.1 he
      obtain rfl : b = b' := Option.some.inj (hb.symm.trans hb')
      exact ⟨a, c, ha, hc, hab.tail he⟩
  · rintro ⟨a, b, ha, hb, hab⟩
    rw [← h.idxOf_eq ha, ← h.idxOf_eq hb]
    refine TransGen.lift g.nodes.idxOf (fun c d he => ?_) _ _ hab
    have hends := h.edges _ he
    have hc := List.getElem?_idxOf hends.1
    have hd := List.getElem?_idxOf hends.2
    exact h.holds_edgeRows_iff.2 ⟨c, d, hc, hd, he⟩

theorem Proper.mem_nodes_of_leads (h : g.Proper) (hab : g.Leads a b) :
    a ∈ g.nodes ∧ b ∈ g.nodes := by
  obtain ⟨c, he, _⟩ := TransGen.head'_iff.1 hab
  obtain ⟨d, _, he'⟩ := TransGen.tail'_iff.1 hab
  exact ⟨(h.edges _ he).1, (h.edges _ he').2⟩

/-- **A graph has a cycle if some node leads to itself.** -/
theorem Proper.hasCycle_iff (h : g.Proper) : g.hasCycle ↔ ∃ a, g.Leads a a := by
  simp only [hasCycle, List.any_eq_true, List.mem_range, h.holds_walkRows_iff]
  constructor
  · rintro ⟨i, _, a, b, ha, hb, hab⟩
    obtain rfl : a = b := Option.some.inj (ha.symm.trans hb)
    exact ⟨a, hab⟩
  · rintro ⟨a, haa⟩
    have ha := List.getElem?_idxOf (h.mem_nodes_of_leads haa).1
    exact ⟨_, (List.getElem?_eq_some_iff.1 ha).1, a, a, ha, ha, haa⟩

/-! ## Circles -/

theorem mem_circle {walks : Rows} :
    j ∈ g.circle walks i ↔ j < g.nodes.length ∧ walks.holds i j ∧ walks.holds j i := by
  simp [circle]

/-- The circle of the node with a number, in paths. -/
theorem Proper.mem_filterMap_circle_iff (h : g.Proper) (ha : g.nodes[i]? = some a) :
    b ∈ (g.circle g.walkRows i).filterMap (g.nodes[·]?) ↔ g.Leads a b ∧ g.Leads b a := by
  simp only [List.mem_filterMap, mem_circle, h.holds_walkRows_iff, ha, Option.some.injEq]
  constructor
  · rintro ⟨j, ⟨_, ⟨_, c, rfl, hc, hab⟩, d, _, hd, rfl, hba⟩, hb⟩
    obtain rfl : b = c := Option.some.inj (hb.symm.trans hc)
    obtain rfl : b = d := Option.some.inj (hb.symm.trans hd)
    exact ⟨hab, hba⟩
  · rintro ⟨hab, hba⟩
    have hb := List.getElem?_idxOf (h.mem_nodes_of_leads hab).2
    exact ⟨_, ⟨(List.getElem?_eq_some_iff.1 hb).1, ⟨a, b, rfl, hb, hab⟩, b, a, hb, rfl, hba⟩, hb⟩

theorem mem_cycles_iff {c : List Path} :
    c ∈ g.cycles ↔ ∃ i < g.nodes.length, (g.circle g.walkRows i).head? = some i ∧
      c = (g.circle g.walkRows i).filterMap (g.nodes[·]?) := by
  simp only [cycles, circles, List.mem_map, List.mem_filterMap, List.mem_range]
  constructor
  · rintro ⟨members, ⟨i, hi, hm⟩, rfl⟩
    split at hm
    · next hhead =>
      obtain rfl := Option.some.inj hm
      exact ⟨i, hi, hhead, rfl⟩
    · simp at hm
  · rintro ⟨i, hi, hhead, rfl⟩
    exact ⟨_, ⟨i, hi, if_pos hhead⟩, rfl⟩

/-- **The members of a circle** are the nodes that one of them leads to and is led to by. -/
theorem Proper.exists_of_mem_cycles (h : g.Proper) {c : List Path} (hc : c ∈ g.cycles) :
    ∃ a ∈ c, ∀ b, b ∈ c ↔ g.Leads a b ∧ g.Leads b a := by
  obtain ⟨i, hi, hhead, rfl⟩ := mem_cycles_iff.1 hc
  have ha : g.nodes[i]? = some g.nodes[i] := List.getElem?_eq_getElem hi
  refine ⟨g.nodes[i], ?_, fun b => h.mem_filterMap_circle_iff ha⟩
  exact List.mem_filterMap.2 ⟨i, List.mem_of_head? hhead, ha⟩

/-- Numbers on one circle have the same circle. -/
theorem Proper.circle_eq (h : g.Proper) (hj : j ∈ g.circle g.walkRows i) :
    g.circle g.walkRows j = g.circle g.walkRows i := by
  have trans {i j k : Nat} (hij : g.walkRows.holds i j) (hjk : g.walkRows.holds j k) :
      g.walkRows.holds i k := by
    obtain ⟨a, b, ha, hb, hab⟩ := h.holds_walkRows_iff.1 hij
    obtain ⟨b', c, hb', hc, hbc⟩ := h.holds_walkRows_iff.1 hjk
    obtain rfl : b = b' := Option.some.inj (hb.symm.trans hb')
    exact h.holds_walkRows_iff.2 ⟨a, c, ha, hc, hab.trans hbc⟩
  obtain ⟨_, hij, hji⟩ := mem_circle.1 hj
  refine List.filter_congr fun k _ => ?_
  rw [Bool.eq_iff_iff, Bool.and_eq_true, Bool.and_eq_true]
  exact ⟨fun ⟨hjk, hkj⟩ => ⟨trans hij hjk, trans hkj hji⟩,
    fun ⟨hik, hki⟩ => ⟨trans hji hik, trans hki hij⟩⟩

/-- **Every node that leads to itself is on a circle.** -/
theorem Proper.exists_mem_cycles (h : g.Proper) (haa : g.Leads a a) : ∃ c ∈ g.cycles, a ∈ c := by
  have ha := List.getElem?_idxOf (h.mem_nodes_of_leads haa).1
  have hmem : a ∈ (g.circle g.walkRows (g.nodes.idxOf a)).filterMap (g.nodes[·]?) :=
    (h.mem_filterMap_circle_iff ha).2 ⟨haa, haa⟩
  -- the circle is listed at its first member
  cases hhead : (g.circle g.walkRows (g.nodes.idxOf a)).head? with
  | none => simp [List.head?_eq_none_iff.1 hhead] at hmem
  | some k =>
    have hk := List.mem_of_head? hhead
    have heq := h.circle_eq hk
    exact ⟨_, mem_cycles_iff.2 ⟨k, (mem_circle.1 hk).1, by rw [heq, hhead], rfl⟩, by rwa [heq]⟩

theorem Proper.cycles_eq_nil_iff (h : g.Proper) : g.cycles = [] ↔ ¬ g.hasCycle := by
  rw [h.hasCycle_iff, List.eq_nil_iff_forall_not_mem]
  constructor
  · rintro hnil ⟨a, haa⟩
    obtain ⟨c, hc, _⟩ := h.exists_mem_cycles haa
    exact hnil c hc
  · intro hno c hc
    obtain ⟨a, hac, ha⟩ := h.exists_of_mem_cycles hc
    exact hno ⟨a, ((ha a).1 hac).1⟩

end RequireGraph

end LuaBundle
