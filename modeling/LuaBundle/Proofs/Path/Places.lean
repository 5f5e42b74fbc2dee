import LuaBundle.Path
import Mathlib.Data.List.Nodup
import Mathlib.Data.List.Pairwise

/-!
# Lists of different places

Many lists are looked through for the place of a path: what a walk has found, the nodes of a graph,
an order of loading.  As long as no two members are the same place, a search finds the one member
that is there.
-/

set_option autoImplicit false

namespace LuaBundle

variable {α : Type} {f : α → Path} {l : List α}

/-- No two members of a list are at the same place. -/
def PlacedApart (f : α → Path) (l : List α) : Prop :=
  l.Pairwise fun a b => ¬ f a ≈ f b

theorem PlacedApart.eq_of_equiv (h : PlacedApart f l) {a b : α} (ha : a ∈ l) (hb : b ∈ l)
    (he : f a ≈ f b) : a = b := by
  have : Std.Symm fun a b : α => ¬ f a ≈ f b := ⟨fun _ _ h he => h (Setoid.symm he)⟩
  by_contra hne
  exact h.forall ha hb hne he

theorem PlacedApart.nodup (h : PlacedApart f l) : l.Nodup :=
  h.imp fun hab he => hab (Path.equiv_of_eq (congrArg f he))

theorem PlacedApart.perm (h : PlacedApart f l) {l' : List α} (hp : l.Perm l') :
    PlacedApart f l' :=
  List.Pairwise.perm h hp fun hab he => hab (Setoid.symm he)

/-- A place has one number. -/
theorem PlacedApart.getElem_inj (h : PlacedApart f l) {i j : Nat} {hi : i < l.length}
    {hj : j < l.length} (he : f l[i] ≈ f l[j]) : i = j :=
  h.nodup.getElem_inj_iff.1 (h.eq_of_equiv (List.getElem_mem hi) (List.getElem_mem hj) he)

/-- The members before the last one are those at other places. -/
theorem PlacedApart.mem_dropLast_iff (h : PlacedApart f l) {last a : α}
    (hlast : l.getLast? = some last) : a ∈ l.dropLast ↔ a ∈ l ∧ ¬ f a ≈ f last := by
  have hl : l.dropLast ++ [last] = l := List.dropLast_append_getLast? last hlast
  rw [PlacedApart, ← hl, List.pairwise_append] at h
  constructor
  · intro ha
    exact ⟨(List.dropLast_sublist l).subset ha, h.2.2 a ha last (List.mem_singleton_self last)⟩
  · rintro ⟨ha, hne⟩
    rw [← hl] at ha
    refine (List.mem_append.1 ha).resolve_right fun ha => hne ?_
    obtain rfl := List.mem_singleton.1 ha
    exact Setoid.refl _

/-- A search for a place finds the member that is there. -/
theorem PlacedApart.find?_eq_some_iff (h : PlacedApart f l) {p : Path} {a : α} :
    l.find? (fun a => (f a).steps == p.steps) = some a ↔ a ∈ l ∧ f a ≈ p := by
  constructor
  · intro hf
    exact ⟨List.mem_of_find?_eq_some hf, Path.equiv_iff.2 (by simpa using List.find?_some hf)⟩
  · rintro ⟨ha, hp⟩
    cases hf : l.find? (fun a => (f a).steps == p.steps) with
    | none => exact absurd (Path.equiv_iff.1 hp) (by simpa using List.find?_eq_none.1 hf a ha)
    | some b =>
      have hb : f b ≈ p := Path.equiv_iff.2 (by simpa using List.find?_some hf)
      rw [h.eq_of_equiv (List.mem_of_find?_eq_some hf) ha (Setoid.trans hb (Setoid.symm hp))]

end LuaBundle
