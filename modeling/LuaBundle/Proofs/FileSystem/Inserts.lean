import LuaBundle.Proofs.FileSystem.Store
import LuaBundle.Proofs.Path.Normal
import Mathlib.Data.Finset.Card

/-!
# What was inserted last

A store is asked about paths after files were inserted at paths, and each of them may be spelled in
any way.  Where two paths have one normal form, the later insert replaces the earlier one.

* `Store.keys_insert` and `Store.get?_insert` — what one insert changes, and `Store.answers_insert`
  what it does not;
* `Store.mem_keys_ofList` and `Store.get?_ofList` — so the keys are the normal forms of all paths
  that were inserted at, and what is found is what was inserted last;
* `Store.answers_of_inserts` — every answer of a store, in terms of the inserts.
-/

set_option autoImplicit false

namespace LuaBundle

/-- A path goes on from a directory by at least one more step. -/
def Path.GoesOn (p dir : Path) : Prop :=
  ∃ more : List Step, more ≠ [] ∧ p.steps = dir.steps ++ more

theorem Path.isBelow_iff {p dir : Path} : p.isBelow dir ↔ p.GoesOn dir := by
  rw [isBelow, isWithin, Bool.and_eq_true, List.isPrefixOf_iff_prefix, bne_iff_ne]
  constructor
  · rintro ⟨⟨more, hmore⟩, hne⟩
    exact ⟨more, fun hnil => hne (by rw [← hmore, hnil, List.append_nil]), hmore.symm⟩
  · rintro ⟨more, hne, hmore⟩
    exact ⟨⟨more, hmore.symm⟩, fun he => hne (List.self_eq_append_right.1 (he ▸ hmore))⟩

namespace Store

variable {s : Store} {p q : Path} {l : List (Path × String)}

/-- The normal paths that a store has texts for. -/
def keys (s : Store) : List Path :=
  s.files.map (·.1)

/-! ## One insert -/

theorem map_fst_put (key : Path) (text : String) (files : List (Path × String)) :
    (put key text files).map (·.1) =
      if key ∈ files.map (·.1) then files.map (·.1) else files.map (·.1) ++ [key] := by
  induction files with
  | nil => rfl
  | cons f files ih =>
    rw [put]
    split
    · next he => simp [he]
    · next hne =>
      have hne : key ≠ f.1 := Ne.symm hne
      simp only [List.map_cons, ih, List.mem_cons, hne, false_or]
      split <;> rfl

theorem map_find?_put (key q : Path) (text : String) (files : List (Path × String)) :
    ((put key text files).find? (·.1 == q)).map (·.2) =
      if key = q then some text else (files.find? (·.1 == q)).map (·.2) := by
  induction files with
  | nil => by_cases h : key = q <;> simp [put, h]
  | cons f files ih =>
    obtain ⟨k, t⟩ := f
    by_cases hk : k = key
    · subst hk
      by_cases hq : k = q <;> simp [put, hq]
    · rw [put, if_neg hk]
      by_cases hq : k = q
      · subst hq
        simp [Ne.symm hk]
      · simpa [hq] using ih

theorem keys_insert (s : Store) (p : Path) (text : String) :
    (s.insert p text).keys =
      if p.normalize ∈ s.keys then s.keys else s.keys ++ [p.normalize] :=
  map_fst_put ..

/-- **What is found after an insert** is its text at its path, and what was found before at every
other path. -/
theorem get?_insert (s : Store) (p q : Path) (text : String) :
    (s.insert p text).get? q = if p.normalize = q.normalize then some text else s.get? q :=
  map_find?_put ..

theorem mem_keys_insert {key : Path} {text : String} :
    key ∈ (s.insert p text).keys ↔ key ∈ s.keys ∨ key = p.normalize := by
  rw [keys_insert]
  split
  · next hmem => exact ⟨.inl, fun h => h.elim id fun he => he ▸ hmem⟩
  · rw [List.mem_append, List.mem_singleton]

theorem nodup_keys_insert (h : s.keys.Nodup) (text : String) : (s.insert p text).keys.Nodup := by
  rw [keys_insert]
  split
  · exact h
  · next hnew => exact List.concat_eq_append ▸ h.concat hnew

/-! ## Many inserts -/

theorem ofList_concat (l : List (Path × String)) (f : Path × String) :
    ofList (l ++ [f]) = (ofList l).insert f.1 f.2 :=
  List.foldl_concat ..

theorem mem_keys_ofList {key : Path} :
    key ∈ (ofList l).keys ↔ ∃ f ∈ l, f.1.normalize = key := by
  induction l using List.reverseRecOn with
  | nil => simp [ofList, keys]
  | append_singleton l f ih =>
    rw [ofList_concat, mem_keys_insert, ih]
    simp [or_and_right, exists_or, eq_comm]

theorem nodup_keys_ofList (l : List (Path × String)) : (ofList l).keys.Nodup := by
  induction l using List.reverseRecOn with
  | nil => exact List.nodup_nil
  | append_singleton l f ih =>
    rw [ofList_concat]
    exact nodup_keys_insert ih f.2

/-- The inserts that went where a path leads. -/
def insertsAt (l : List (Path × String)) (q : Path) : List (Path × String) :=
  l.filter (·.1.normalize = q.normalize)

/-- **What is found is what was inserted last.** -/
theorem get?_ofList (l : List (Path × String)) (q : Path) :
    (ofList l).get? q = (insertsAt l q).getLast?.map (·.2) := by
  induction l using List.reverseRecOn with
  | nil => rfl
  | append_singleton l f ih =>
    rw [ofList_concat, get?_insert, ih, insertsAt, insertsAt, List.filter_append]
    split
    · next he => simp [he]
    · next hne => simp [hne]

/-! ## Answers -/

theorem isDirectory_iff : s.isDirectory q ↔ ∃ key ∈ s.keys, key.GoesOn q.normalize := by
  simp only [isDirectory, List.any_eq_true, Path.isBelow_iff, keys, List.mem_map,
    exists_exists_and_eq_and]

/-- **An insert changes nothing beside its path**: only what is asked about this path and about
the directories above it may be answered in another way. -/
theorem answers_insert (s : Store) {p q : Path} (hne : q.normalize ≠ p.normalize)
    (habove : ¬ p.normalize.GoesOn q.normalize) (text : String) :
    (s.insert p text).read q = s.read q ∧ (s.insert p text).isFile q = s.isFile q ∧
      (s.insert p text).has q = s.has q := by
  have hget : (s.insert p text).get? q = s.get? q := by
    rw [get?_insert, if_neg (Ne.symm hne)]
  have hdirectory : (s.insert p text).isDirectory q = s.isDirectory q := by
    rw [Bool.eq_iff_iff, isDirectory_iff, isDirectory_iff]
    simp only [mem_keys_insert, or_and_right, exists_or, exists_eq_left, habove, or_false]
  refine ⟨by rw [read, read, hget], by rw [isFile, isFile, hget], ?_⟩
  rw [has, has, isFile, isFile, hget, hdirectory]

/-- **Every answer of a store**, in terms of the inserts that filled it.  A path reads as the text
that was inserted last where the path leads, and is missing if there is none.  It is a file if there
is one, and it is there if it is a file or an insert went further on from where it leads, which
every insert does from the empty path.  The size counts the different paths that were inserted at,
and an insert changes no answer about paths that are neither its own nor above it. -/
theorem answers_of_inserts (l : List (Path × String)) (q : Path) :
    (ofList l).read q =
      (match (insertsAt l q).getLast? with
        | some (_, text) => .ok text
        | none => .error ⟨.notFound, q.text ++ " does not exist"⟩) ∧
    ((ofList l).isFile q ↔ ∃ f ∈ l, f.1.normalize = q.normalize) ∧
    ((ofList l).has q ↔
      (ofList l).isFile q ∨ ∃ f ∈ l, f.1.normalize.GoesOn q.normalize) ∧
    (ofList l).size = (l.map (·.1.normalize)).toFinset.card ∧
    ∀ (p : Path) (text : String), q.normalize ≠ p.normalize → ¬ p.normalize.GoesOn q.normalize →
      ((ofList l).insert p text).read q = (ofList l).read q ∧
      ((ofList l).insert p text).isFile q = (ofList l).isFile q ∧
      ((ofList l).insert p text).has q = (ofList l).has q := by
  refine ⟨?_, ?_, ?_, ?_, fun p text hne habove => answers_insert _ hne habove text⟩
  · rw [read, get?_ofList]
    cases (insertsAt l q).getLast? <;> rfl
  · rw [isFile, get?_ofList, Option.isSome_map, List.getLast?_isSome, insertsAt]
    simp only [ne_eq, List.filter_eq_nil_iff, decide_eq_true_eq, not_forall, not_not, exists_prop]
  · rw [has, Bool.or_eq_true, isDirectory_iff]
    simp only [mem_keys_ofList, exists_exists_and_eq_and]
  · -- a store has each key once, so its size is the number of different keys
    have hkeys : (ofList l).keys.toFinset = (l.map (·.1.normalize)).toFinset := by
      ext key
      simp only [List.mem_toFinset, mem_keys_ofList, List.mem_map]
    rw [← hkeys, List.toFinset_card_of_nodup (nodup_keys_ofList l), keys, List.length_map, size]

/-- An absolute file lies below the empty path, which a `.` stands for. -/
example : (ofList [(⟨"/a//b"⟩, "1"), (⟨"/a/./c/../b"⟩, "2")]).has ⟨"./"⟩ ∧
    (ofList [(⟨"/a//b"⟩, "1"), (⟨"/a/./c/../b"⟩, "2")]).get? ⟨"/../a/b"⟩ = some "2" := by
  decide +kernel

end Store

end LuaBundle
