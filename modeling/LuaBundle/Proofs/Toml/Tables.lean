import LuaBundle.Toml.Value
import Mathlib.Data.List.Induction
import Mathlib.Data.String.Basic

/-!
# Tables and merged tables

A table keeps its keys in order, and so holds one value for a key.  To merge tables is then to look
into the upper one first and into the lower one if it has nothing there; only where both hold a table
are the two merged again.

* `Table.Sorted` — keys are in order;
* `Table.get?_insert`, `Table.get?_merge` — what is found after one change, and after a merge;
* `Table.outline_stacked` — of many tables that are laid over each other, the last one that has a key
  decides, up to what tables hold;
* `Table.outline_below_stacked` — and so it is inside of a section that they share.
-/

set_option autoImplicit false

namespace LuaBundle.Toml

/-- A value without what a table holds. -/
def Value.outline : Value → Value
  | .table _ => .table []
  | v => v

namespace Table

variable {t base overlay : Table} {key k : String} {v : Value}

/-! ## Sorted tables -/

/-- The keys are in order, and so no key comes twice. -/
def Sorted (t : Table) : Prop :=
  t.Pairwise (·.1 < ·.1)

theorem sorted_nil : Sorted [] :=
  List.Pairwise.nil

@[simp] theorem get?_nil (key : String) : get? [] key = none := rfl

theorem get?_cons (key : String) (v : Value) (t : Table) (k : String) :
    get? ((key, v) :: t) k = if k = key then some v else t.get? k := by
  unfold get?
  by_cases h : k = key
  · simp [h]
  · simp [h, Ne.symm h]

theorem mem_of_get? (h : t.get? key = some v) : (key, v) ∈ t := by
  obtain ⟨e, hfind, rfl⟩ := Option.map_eq_some_iff.1 h
  have hkey : e.1 = key := by simpa using List.find?_some hfind
  exact hkey ▸ List.mem_of_find?_eq_some hfind

/-- The first key does not come again. -/
theorem Sorted.get?_tail (h : Sorted ((key, v) :: t)) : t.get? key = none := by
  rw [Option.eq_none_iff_forall_ne_some]
  intro w hw
  exact String.lt_irrefl key ((List.pairwise_cons.1 h).1 _ (mem_of_get? hw))

theorem get?_insert (t : Table) (key : String) (v : Value) (k : String) :
    (t.insert key v).get? k = if k = key then some v else t.get? k := by
  induction t with
  | nil => exact get?_cons key v [] k
  | cons e t ih =>
    obtain ⟨first, w⟩ := e
    rw [insert]
    split
    · next h =>
      subst h
      rw [get?_cons, get?_cons]
      split <;> rfl
    · next h =>
      split
      · rw [get?_cons]
      · rw [get?_cons, get?_cons, ih]
        by_cases hk : k = first
        · rw [if_pos hk, if_neg fun hkey => h (hkey.symm.trans hk), if_pos hk]
        · rw [if_neg hk, if_neg hk]

theorem eq_or_mem_of_mem_insert {e : String × Value} (h : e ∈ t.insert key v) :
    e = (key, v) ∨ e ∈ t := by
  induction t with
  | nil => exact .inl (List.mem_singleton.1 h)
  | cons first t ih =>
    rw [insert] at h
    split at h
    · exact (List.mem_cons.1 h).imp_right (List.mem_cons_of_mem _)
    · split at h
      · exact List.mem_cons.1 h
      · rcases List.mem_cons.1 h with rfl | h
        · exact .inr List.mem_cons_self
        · exact (ih h).imp_right (List.mem_cons_of_mem _)

theorem Sorted.insert (h : t.Sorted) (key : String) (v : Value) : (t.insert key v).Sorted := by
  induction t with
  | nil => exact List.pairwise_singleton _ _
  | cons e t ih =>
    obtain ⟨first, w⟩ := e
    obtain ⟨hfirst, htail⟩ := List.pairwise_cons.1 h
    rw [Table.insert]
    split
    · next hkey =>
      exact List.pairwise_cons.2 ⟨fun e he => hkey ▸ hfirst e he, htail⟩
    · next hne =>
      split
      · next hlt =>
        refine List.pairwise_cons.2 ⟨fun e he => ?_, h⟩
        rcases List.mem_cons.1 he with rfl | he
        · exact hlt
        · exact String.lt_trans hlt (hfirst e he)
      · next hge =>
        refine List.pairwise_cons.2 ⟨fun e he => ?_, ih htail⟩
        rcases eq_or_mem_of_mem_insert he with rfl | he
        · exact lt_of_le_of_ne (String.not_lt.1 hge) (Ne.symm hne)
        · exact hfirst e he

/-! ## Merging -/

/-- A value that is laid over what is below it. -/
def laid : Option Value → Value → Value
  | some (.table below), .table above => .table (merge below above)
  | _, v => v

theorem merge_nil (base : Table) : merge base [] = base := by
  rw [merge]

theorem merge_cons (base : Table) (key : String) (v : Value) (rest : Table) :
    merge base ((key, v) :: rest) = merge (base.insert key (laid (base.get? key) v)) rest := by
  rw [merge.eq_def]
  dsimp only
  congr 1

theorem outline_laid (below? : Option Value) (v : Value) : (laid below? v).outline = v.outline := by
  unfold laid
  split <;> rfl

/-- **What is found in a merged table.** -/
theorem get?_merge (h : overlay.Sorted) : (merge base overlay).get? key =
    match overlay.get? key with
    | some v => some (laid (base.get? key) v)
    | none => base.get? key := by
  induction overlay generalizing base with
  | nil => rw [merge_nil, get?_nil]
  | cons e overlay ih =>
    obtain ⟨first, v⟩ := e
    rw [merge_cons, ih (List.pairwise_cons.1 h).2, get?_cons, get?_insert]
    by_cases hkey : key = first
    · subst hkey
      rw [h.get?_tail, if_pos rfl, if_pos rfl]
    · rw [if_neg hkey, if_neg hkey]

theorem Sorted.merge (h : base.Sorted) (overlay : Table) : (base.merge overlay).Sorted := by
  induction overlay generalizing base with
  | nil => rwa [merge_nil]
  | cons e overlay ih =>
    rw [merge_cons]
    exact ih (h.insert _ _)

/-- Below its outline, a merged table has the value of the overlay if there is one. -/
theorem outline_merge (h : overlay.Sorted) : ((merge base overlay).get? key).map Value.outline =
    ((overlay.get? key).or (base.get? key)).map Value.outline := by
  rw [get?_merge h]
  cases overlay.get? key with
  | none => rfl
  | some v => exact congrArg some (outline_laid _ v)

/-! ## Sections -/

/-- The table under a key; empty if there is none. -/
def below (t : Table) (key : String) : Table :=
  match t.get? key with
  | some (.table entries) => entries
  | _ => []

/-- What stands under a key is a table, if anything is there. -/
def IsSection (t : Table) (key : String) : Prop :=
  ∀ v, t.get? key = some v → ∃ entries, v = .table entries

theorem IsSection.cases (h : t.IsSection key) :
    t.get? key = none ∧ t.below key = [] ∨
      ∃ entries, t.get? key = some (.table entries) ∧ t.below key = entries := by
  unfold below
  cases hv : t.get? key with
  | none => exact .inl ⟨rfl, rfl⟩
  | some v =>
    obtain ⟨entries, rfl⟩ := h v hv
    exact .inr ⟨entries, rfl, rfl⟩

/-- A table whose keys are in order, and so are those of the tables in it. -/
structure WellKeyed (t : Table) : Prop where
  sorted : t.Sorted
  sorted_of_get? {key : String} {entries : Table} (h : t.get? key = some (.table entries)) :
    entries.Sorted

theorem wellKeyed_nil : WellKeyed [] :=
  ⟨sorted_nil, nofun⟩

theorem WellKeyed.below (h : t.WellKeyed) (key : String) : (t.below key).Sorted := by
  unfold Table.below
  split
  · next ht => exact h.sorted_of_get? ht
  · exact sorted_nil

theorem WellKeyed.merge (hbase : base.WellKeyed) (h : overlay.WellKeyed) :
    (base.merge overlay).WellKeyed where
  sorted := hbase.sorted.merge overlay
  sorted_of_get? hentries := by
    rw [get?_merge h.sorted] at hentries
    split at hentries
    · next v hv =>
      unfold laid at hentries
      split at hentries
      · next hbelow =>
        cases hentries
        exact (hbase.sorted_of_get? hbelow).merge _
      · exact h.sorted_of_get? (hv.trans hentries)
    · exact hbase.sorted_of_get? hentries

theorem IsSection.merge (hbase : base.IsSection key) (h : overlay.IsSection key)
    (hsorted : overlay.Sorted) : (base.merge overlay).IsSection key := by
  intro v hv
  rw [get?_merge hsorted] at hv
  rcases h.cases with ⟨ho, _⟩ | ⟨above, ho, _⟩
  · rw [ho] at hv
    exact hbase v hv
  · rw [ho] at hv
    obtain rfl := Option.some.inj hv
    unfold laid
    split
    · exact ⟨_, rfl⟩
    · exact ⟨above, rfl⟩

/-- **Sections are merged key by key.** -/
theorem outline_below_merge (hbase : base.IsSection key) (h : overlay.IsSection key)
    (hkeys : overlay.WellKeyed) :
    (((merge base overlay).below key).get? k).map Value.outline =
      (((overlay.below key).get? k).or ((base.below key).get? k)).map Value.outline := by
  rcases h.cases with ⟨ho, he⟩ | ⟨above, ho, he⟩
  · have hmerged : (merge base overlay).below key = base.below key := by
      rw [below, get?_merge hkeys.sorted, ho, below]
    rw [hmerged, he, get?_nil, Option.none_or]
  · rcases hbase.cases with ⟨hb, hbe⟩ | ⟨below, hb, hbe⟩
    · have hmerged : (merge base overlay).below key = above := by
        rw [Table.below, get?_merge hkeys.sorted, ho, hb]
        rfl
      rw [hmerged, he, hbe, get?_nil, Option.or_none]
    · have hmerged : (merge base overlay).below key = merge below above := by
        rw [Table.below, get?_merge hkeys.sorted, ho, hb]
        rfl
      rw [hmerged, he, hbe, outline_merge (hkeys.sorted_of_get? ho)]

/-! ## Many tables -/

/-- Tables that are laid over each other, the first one at the bottom. -/
def stacked (ts : List Table) : Table :=
  ts.foldl merge []

theorem stacked_concat (ts : List Table) (t : Table) :
    stacked (ts ++ [t]) = (stacked ts).merge t := by
  simp [stacked]

theorem wellKeyed_stacked {ts : List Table} (h : ∀ t ∈ ts, t.WellKeyed) :
    (stacked ts).WellKeyed := by
  induction ts using List.reverseRecOn with
  | nil => exact wellKeyed_nil
  | append_singleton ts t ih =>
    rw [stacked_concat]
    exact (ih fun t ht => h t (by simp [ht])).merge (h t (by simp))

theorem isSection_stacked {ts : List Table} (h : ∀ t ∈ ts, t.WellKeyed)
    (hkey : ∀ t ∈ ts, t.IsSection key) : (stacked ts).IsSection key := by
  induction ts using List.reverseRecOn with
  | nil => exact fun v hv => nomatch hv
  | append_singleton ts t ih =>
    rw [stacked_concat]
    exact (ih (fun t ht => h t (by simp [ht])) (fun t ht => hkey t (by simp [ht]))).merge
      (hkey t (by simp)) (h t (by simp)).sorted

/-- **The last table that has a key decides.** -/
theorem outline_stacked {ts : List Table} (h : ∀ t ∈ ts, t.WellKeyed) (key : String) :
    ((stacked ts).get? key).map Value.outline =
      (ts.reverse.findSome? (·.get? key)).map Value.outline := by
  induction ts using List.reverseRecOn with
  | nil => rfl
  | append_singleton ts t ih =>
    have ih := ih fun t ht => h t (by simp [ht])
    rw [stacked_concat, outline_merge (h t (by simp)).sorted, List.reverse_append,
      List.reverse_singleton, List.singleton_append, List.findSome?_cons]
    cases t.get? key with
    | none => exact ih
    | some v => rfl

/-- **The last table that has a key in a section decides**, whatever else the sections of the others
hold. -/
theorem outline_below_stacked {ts : List Table} (h : ∀ t ∈ ts, t.WellKeyed)
    (hkey : ∀ t ∈ ts, t.IsSection key) (k : String) :
    (((stacked ts).below key).get? k).map Value.outline =
      (ts.reverse.findSome? fun t => (t.below key).get? k).map Value.outline := by
  induction ts using List.reverseRecOn with
  | nil => rfl
  | append_singleton ts t ih =>
    have hlower : ∀ t ∈ ts, t.WellKeyed := fun t ht => h t (by simp [ht])
    have hsections : ∀ t ∈ ts, t.IsSection key := fun t ht => hkey t (by simp [ht])
    rw [stacked_concat, outline_below_merge (isSection_stacked hlower hsections)
      (hkey t (by simp)) (h t (by simp)), List.reverse_append, List.reverse_singleton,
      List.singleton_append, List.findSome?_cons]
    cases (t.below key).get? k with
    | none => exact ih hlower hsections
    | some v => rfl

end Table

end LuaBundle.Toml
