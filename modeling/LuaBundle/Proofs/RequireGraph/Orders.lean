import LuaBundle.Proofs.RequireGraph.Cycles

/-!
# Orders and circles

An order of different places that has all nodes of a graph breaks the edges whose second end does
not stand before the first.

* `lastPosition?_eq_some_iff_isLast` — the place of a path in an order is its last one there;
* `mem_violations_iff` — so these edges are the violations of the order;
* `exists_mem_violations` — every circle has one: a walk around a circle whose edges all go to
  earlier places would end before it started;
* `violations_subset_cycles` — an order in which what requires an earlier place is led back to by it
  breaks edges of circles only;
* `exists_perm_violations_eq_nil` — without circles some order of the nodes breaks nothing: nodes
  that lead to fewer nodes come first.
-/

set_option autoImplicit false

namespace LuaBundle

open Relation

namespace RequireGraph

variable {order : List Path}

/-! ## Places in an order -/

/-- The last place of a path in an order. -/
def IsLast (order : List Path) (p : Path) (i : Nat) : Prop :=
  (∃ hi : i < order.length, order[i] ≈ p) ∧
    ∀ j (hj : j < order.length), i < j → ¬ order[j] ≈ p

/-- **The place of a path in an order is the last one that it has there.** -/
theorem lastPosition?_eq_some_iff_isLast {p : Path} {i : Nat} :
    lastPosition? order p = some i ↔ IsLast order p i := by
  simp only [lastPosition?, IsLast, Option.map_eq_some_iff, List.findIdx?_eq_some_iff_getElem,
    List.length_reverse, List.getElem_reverse, beq_iff_eq, Path.equiv_iff]
  constructor
  · rintro ⟨k, ⟨hk, hp, hlater⟩, rfl⟩
    refine ⟨⟨by omega, hp⟩, fun j hj hlt he => ?_⟩
    have h := hlater (order.length - 1 - j) (by omega)
    simp only [show order.length - 1 - (order.length - 1 - j) = j by omega] at h
    exact h he
  · rintro ⟨⟨hi, hp⟩, hlater⟩
    refine ⟨order.length - 1 - i, ⟨by omega, ?_, fun j hj => ?_⟩, by omega⟩
    · simpa only [show order.length - 1 - (order.length - 1 - i) = i by omega] using hp
    · exact hlater _ (by omega) (by omega)

/-- In an order of different places the last place of a path is its only one. -/
theorem lastPosition?_eq_some_iff (h : PlacedApart id order) {p : Path} {i : Nat} :
    lastPosition? order p = some i ↔ ∃ hi : i < order.length, order[i] ≈ p := by
  rw [lastPosition?_eq_some_iff_isLast, IsLast]
  refine and_iff_left_of_imp fun ⟨hi, hp⟩ j hj hlt hq => ?_
  have he : order[j] ≈ order[i] := Setoid.trans hq (Setoid.symm hp)
  exact Nat.ne_of_gt hlt (h.getElem_inj (f := id) he)

theorem lastPosition?_eq_idxOf (h : PlacedApart id order) {p : Path} (hp : p ∈ order) :
    lastPosition? order p = some (order.idxOf p) := by
  refine (lastPosition?_eq_some_iff h).2 ⟨List.idxOf_lt_length_iff.2 hp, Path.equiv_iff.2 ?_⟩
  rw [List.getElem_idxOf]

/-! ## Violations -/

variable {g : RequireGraph} {a b : Path}

theorem Proper.mem_violations_iff (h : g.Proper) (hord : PlacedApart id order)
    (hsub : g.nodes ⊆ order) :
    (a, b) ∈ g.violations order ↔ (a, b) ∈ g.edges ∧ order.idxOf a ≤ order.idxOf b := by
  rw [violations, List.mem_filter]
  refine and_congr_right fun he => ?_
  have ha : lastPosition? order a = some (order.idxOf a) :=
    lastPosition?_eq_idxOf hord (hsub (h.edges _ he).1)
  have hb : lastPosition? order b = some (order.idxOf b) :=
    lastPosition?_eq_idxOf hord (hsub (h.edges _ he).2)
  simp [ha, hb]

/-- **Every order breaks an edge of every circle.** -/
theorem Proper.exists_mem_violations (h : g.Proper) (hord : PlacedApart id order)
    (hsub : g.nodes ⊆ order) {c : List Path} (hc : c ∈ g.cycles) :
    ∃ e ∈ g.violations order, e.1 ∈ c ∧ e.2 ∈ c := by
  obtain ⟨a, hac, hmem⟩ := h.exists_of_mem_cycles hc
  by_contra hno
  -- along a walk that leads back the places get earlier and earlier
  have earlier : ∀ b, g.Leads a b → g.Leads b a → order.idxOf b < order.idxOf a := by
    have edge : ∀ x y, (x, y) ∈ g.edges → x ∈ c → y ∈ c → order.idxOf y < order.idxOf x := by
      intro x y he hx hy
      by_contra hle
      exact hno ⟨(x, y), (h.mem_violations_iff hord hsub).2 ⟨he, Nat.le_of_not_lt hle⟩, hx, hy⟩
    intro b hab
    induction hab with
    | single he => exact fun hba => edge _ _ he hac ((hmem _).2 ⟨.single he, hba⟩)
    | @tail b d hab he ih =>
      intro hda
      have hba : g.Leads b a := .head he hda
      have hb : b ∈ c := (hmem b).2 ⟨hab, hba⟩
      have hd : d ∈ c := (hmem d).2 ⟨hab.tail he, hda⟩
      exact Nat.lt_trans (edge b d he hb hd) (ih hba)
  obtain ⟨haa, _⟩ := (hmem a).1 hac
  exact Nat.lt_irrefl _ (earlier a haa haa)

/-- **An order breaks edges of circles only**, if the second end of every edge that it breaks leads
back to the first. -/
theorem Proper.violations_subset_cycles (h : g.Proper) (hord : PlacedApart id order)
    (hsub : g.nodes ⊆ order)
    (hback : ∀ a b, (a, b) ∈ g.edges → order.idxOf a ≤ order.idxOf b →
      ReflTransGen g.Edge b a) :
    ∀ e ∈ g.violations order, ∃ c ∈ g.cycles, e.1 ∈ c ∧ e.2 ∈ c := by
  rintro ⟨a, b⟩ he
  obtain ⟨he, hle⟩ := (h.mem_violations_iff hord hsub).1 he
  have hba := hback a b he hle
  have haa : g.Leads a a := .head' he hba
  have hbb : g.Leads b b := .tail' hba he
  obtain ⟨c, hc, hac⟩ := h.exists_mem_cycles haa
  obtain ⟨r, _, hmem⟩ := h.exists_of_mem_cycles hc
  obtain ⟨hra, har⟩ := (hmem a).1 hac
  exact ⟨c, hc, hac, (hmem b).2 ⟨hra.tail he, TransGen.trans_right hba har⟩⟩

/-! ## Orders that break nothing -/

/-- How many nodes a node leads to. -/
noncomputable def rank (g : RequireGraph) (a : Path) : Nat :=
  open Classical in g.nodes.countP fun b => g.Leads a b

/-- Without circles the number falls along edges: all that is led to from the end of an edge is led
to from its start, and so is the end. -/
theorem Proper.rank_lt (h : g.Proper) (hno : ∀ a, ¬ g.Leads a a) (he : (a, b) ∈ g.edges) :
    g.rank b < g.rank a := by
  classical
  have hsub : ∀ c, g.Leads b c → g.Leads a c := fun c hbc => .head he hbc
  have hlt : ((g.nodes.filter (g.Leads a ·)).filter (g.Leads b ·)).length <
      (g.nodes.filter (g.Leads a ·)).length := by
    refine List.length_filter_lt_length_iff_exists.2 ⟨b, List.mem_filter.2 ⟨(h.edges _ he).2, ?_⟩, ?_⟩
    · exact decide_eq_true (TransGen.single he)
    · simpa using hno b
  rw [← List.countP_eq_length_filter, ← List.countP_eq_length_filter, List.countP_filter] at hlt
  refine lt_of_eq_of_lt (List.countP_congr fun c _ => ?_) hlt
  simpa using fun hbc => hsub c hbc

/-- **Without circles there is an order that breaks nothing.** -/
theorem Proper.exists_perm_violations_eq_nil (h : g.Proper) (hno : ¬ g.hasCycle) :
    ∃ order, order.Perm g.nodes ∧ g.violations order = [] := by
  have hno : ∀ a, ¬ g.Leads a a := fun a haa => hno (h.hasCycle_iff.2 ⟨a, haa⟩)
  let le : Path → Path → Bool := fun a b => g.rank a ≤ g.rank b
  let order := g.nodes.mergeSort le
  have hperm : order.Perm g.nodes := List.mergeSort_perm _ _
  have htrans : ∀ a b c, le a b → le b c → le a c := by
    simpa [le] using fun a b c => Nat.le_trans
  have htotal : ∀ a b, le a b || le b a := by
    simpa [le] using fun a b => Nat.le_total (g.rank a) (g.rank b)
  have hsorted : order.Pairwise fun a b => g.rank a ≤ g.rank b := by
    simpa [le] using List.pairwise_mergeSort htrans htotal g.nodes
  have hord : PlacedApart id order := h.nodes.perm hperm.symm
  refine ⟨order, hperm, List.eq_nil_iff_forall_not_mem.2 fun ⟨a, b⟩ hv => ?_⟩
  obtain ⟨he, hle⟩ := (h.mem_violations_iff hord hperm.symm.subset).1 hv
  have ha : a ∈ order := hperm.mem_iff.2 (h.edges _ he).1
  have hb : b ∈ order := hperm.mem_iff.2 (h.edges _ he).2
  have hrank : g.rank a ≤ g.rank b := by
    rcases Nat.lt_or_eq_of_le hle with hlt | heq
    · simpa using List.pairwise_iff_getElem.1 hsorted _ _ (List.idxOf_lt_length_iff.2 ha)
        (List.idxOf_lt_length_iff.2 hb) hlt
    · exact Nat.le_of_eq (congrArg g.rank ((List.idxOf_inj ha).1 heq))
  exact absurd (h.rank_lt hno he) (Nat.not_lt.2 hrank)

/-- **A graph has a cycle if every order of its nodes breaks an edge.** -/
theorem Proper.hasCycle_iff_violations (h : g.Proper) :
    g.hasCycle ↔ ∀ order : List Path, order.Perm g.nodes → g.violations order ≠ [] := by
  constructor
  · intro hcycle order hperm hnil
    obtain ⟨a, haa⟩ := h.hasCycle_iff.1 hcycle
    obtain ⟨c, hc, _⟩ := h.exists_mem_cycles haa
    obtain ⟨e, he, _⟩ := h.exists_mem_violations (h.nodes.perm hperm.symm) hperm.symm.subset hc
    simp [hnil] at he
  · intro hall
    by_contra hno
    obtain ⟨order, hperm, hnil⟩ := h.exists_perm_violations_eq_nil hno
    exact hall order hperm hnil

end RequireGraph

end LuaBundle
