import LuaBundle.Proofs.Bundle.Registration

/-!
# Wrappers with one name

Different import names may have the same identifier, and then their wrappers have the same name.
The bundle keeps both and reports it.  A report is made while modules are added one by one, from the
records that are there by then; here it is compared with the records of the whole bundle.

* `Collision` — a wrapper comes after another with the same identifier, the first of which is its
  owner; `collisions` lists them and `mem_collisions_iff` says that it does;
* `collisions_addLibrary` — what one more module adds to the list is what is reported about it;
* `map_snd_collisions` — other records than wrappers make no difference;
* `shared_wrappers_of_modules` — the reports of a whole bundle.
-/

set_option autoImplicit false

namespace LuaBundle

/-- Whether a notice reports that two modules have one wrapper name. -/
def Notice.isShared : Notice → Bool
  | wrapperShared .. => true
  | _ => false

/-- Whether a record is a wrapper with a given identifier. -/
def Record.wraps (identifier : String) (r : Record) : Bool :=
  r.kind == .wrapped && r.identifier == identifier

theorem Record.wraps_iff {identifier : String} {r : Record} :
    r.wraps identifier ↔ r.kind = .wrapped ∧ r.identifier = identifier := by
  rw [wraps, Bool.and_eq_true, beq_iff_eq, beq_iff_eq]

/-! ## Collisions -/

/-- The record with the given number is a wrapper whose identifier an earlier wrapper has, and the
owner is the first one of these. -/
structure Collision (records : List Record) (i : Nat) (owner r : Record) : Prop where
  at_number : records[i]? = some r
  wrapped : r.kind = .wrapped
  owned : ∃ j < i, records[j]? = some owner ∧ owner.kind = .wrapped ∧
    owner.identifier = r.identifier ∧
    ∀ k < j, ∀ e, records[k]? = some e → e.kind = .wrapped → e.identifier ≠ r.identifier

/-- The owner of the identifier of a wrapper among the records before it. -/
def collision? (before : List Record) (r : Record) : Option (Record × Record) :=
  if r.kind = .wrapped then (before.find? (·.wraps r.identifier)).map (·, r) else none

/-- The numbers of the wrappers that come after another one with the same identifier, each with its
owner and itself. -/
def collisions (records : List Record) : List (Nat × Record × Record) :=
  records.zipIdx.filterMap fun (r, i) => (collision? (records.take i) r).map (i, ·)

variable {records more : List Record} {r owner : Record} {i : Nat}

theorem collision?_eq_some_iff {before : List Record} {pair : Record × Record} :
    collision? before r = some pair ↔
      pair.2 = r ∧ r.kind = .wrapped ∧ before.find? (·.wraps r.identifier) = some pair.1 := by
  obtain ⟨o, r'⟩ := pair
  simp only [collision?, Option.ite_none_right_eq_some, Option.map_eq_some_iff, Prod.mk.injEq]
  constructor
  · rintro ⟨hkind, _, hfind, rfl, rfl⟩
    exact ⟨rfl, hkind, hfind⟩
  · rintro ⟨rfl, hkind, hfind⟩
    exact ⟨hkind, o, hfind, rfl, rfl⟩

theorem mem_collisions : (i, owner, r) ∈ collisions records ↔
    records[i]? = some r ∧ r.kind = .wrapped ∧
      (records.take i).find? (·.wraps r.identifier) = some owner := by
  simp only [collisions, List.mem_filterMap, Option.map_eq_some_iff, Prod.mk.injEq, Prod.exists,
    List.mem_zipIdx_iff_getElem?, collision?_eq_some_iff]
  constructor
  · rintro ⟨r', _, hget, o, _, ⟨rfl, hkind, hfind⟩, rfl, rfl, rfl⟩
    exact ⟨hget, hkind, hfind⟩
  · rintro ⟨hget, hkind, hfind⟩
    exact ⟨r, i, hget, owner, r, ⟨rfl, hkind, hfind⟩, rfl, rfl, rfl⟩

/-- **The list has all collisions.** -/
theorem mem_collisions_iff : (i, owner, r) ∈ collisions records ↔ Collision records i owner r := by
  rw [mem_collisions]
  constructor
  · rintro ⟨hget, hkind, hfind⟩
    obtain ⟨howner, j, hj, rfl, hfirst⟩ := List.find?_eq_some_iff_getElem.1 hfind
    obtain ⟨hji, hjlen⟩ := Nat.lt_min.1 (List.length_take ▸ hj)
    obtain ⟨hwrapped, hident⟩ := Record.wraps_iff.1 howner
    refine ⟨hget, hkind, j, hji, ?_, hwrapped, hident, fun k hk e he hwrap heq => ?_⟩
    · rw [List.getElem_take, List.getElem?_eq_getElem hjlen]
    · have hno := hfirst k hk
      obtain ⟨hklen, rfl⟩ := List.getElem?_eq_some_iff.1 he
      rw [List.getElem_take, Bool.not_eq_true', Bool.eq_false_iff] at hno
      exact hno (Record.wraps_iff.2 ⟨hwrap, heq⟩)
  · rintro ⟨hget, hkind, j, hj, howner, hwrapped, hident, hfirst⟩
    obtain ⟨hjlen, rfl⟩ := List.getElem?_eq_some_iff.1 howner
    have hjtake : j < (records.take i).length := List.length_take ▸ Nat.lt_min.2 ⟨hj, hjlen⟩
    refine ⟨hget, hkind, List.find?_eq_some_iff_getElem.2 ⟨Record.wraps_iff.2 ⟨hwrapped, hident⟩,
      j, hjtake, List.getElem_take, fun k hk => ?_⟩⟩
    rw [List.getElem_take, Bool.not_eq_true', Bool.eq_false_iff]
    intro hwraps
    obtain ⟨hwrap, heq⟩ := Record.wraps_iff.1 hwraps
    exact hfirst k hk _ (List.getElem?_eq_getElem (Nat.lt_trans hk hjlen)) hwrap heq

/-- The list is in the order of the records, and has each one once. -/
theorem pairwise_collisions (records : List Record) :
    (collisions records).Pairwise (·.1 < ·.1) := by
  have hnumbers : records.zipIdx.Pairwise (·.2 < ·.2) := by
    rw [← List.pairwise_map (f := Prod.snd) (R := (· < ·)), List.zipIdx_map_snd]
    exact List.pairwise_lt_range'
  refine List.Pairwise.filterMap _ (fun a b hlt c hc d hd => ?_) hnumbers
  obtain ⟨_, _, rfl⟩ := Option.map_eq_some_iff.1 hc
  obtain ⟨_, _, rfl⟩ := Option.map_eq_some_iff.1 hd
  exact hlt

/-- One more record adds its own collision. -/
theorem collisions_append_singleton (records : List Record) (r : Record) :
    collisions (records ++ [r]) =
      collisions records ++ ((collision? records r).map (records.length, ·)).toList := by
  have hold : ∀ e ∈ records.zipIdx,
      (collision? ((records ++ [r]).take e.2) e.1).map (e.2, ·) =
        (collision? (records.take e.2) e.1).map (e.2, ·) := by
    rintro ⟨e, i⟩ he
    have hlen := (List.getElem?_eq_some_iff.1 (List.mem_zipIdx_iff_getElem?.1 he)).1
    rw [List.take_append_of_le_length (Nat.le_of_lt hlen)]
  rw [collisions, List.zipIdx_append, List.filterMap_append, List.filterMap_congr hold]
  refine congrArg (collisions records ++ ·) ?_
  rw [List.zipIdx_singleton, Nat.zero_add, List.filterMap_cons, List.filterMap_nil]
  dsimp only
  rw [List.take_left]
  cases collision? records r <;> rfl

/-- Records that are no wrappers add none. -/
theorem collisions_append_of_not_wrapped (records : List Record)
    (h : ∀ r ∈ more, r.kind ≠ .wrapped) : collisions (records ++ more) = collisions records := by
  induction more using List.reverseRecOn with
  | nil => rw [List.append_nil]
  | append_singleton more r ih =>
    have hnone : collision? (records ++ more) r = none := if_neg (h r (by simp))
    rw [← List.append_assoc, collisions_append_singleton, hnone,
      ih fun e he => h e (List.mem_append_left _ he)]
    exact List.append_nil _

/-- Aliases add none. -/
theorem collisions_append_aliases (records : List Record) {recordOf : String → Record}
    (h : ∀ name, (recordOf name).kind = .alias) (names : List String) :
    collisions (records ++ names.map recordOf) = collisions records := by
  refine collisions_append_of_not_wrapped records fun r hr => ?_
  obtain ⟨name, _, rfl⟩ := List.mem_map.1 hr
  rw [h name]
  decide

/-- Which wrappers collide does not depend on the records between them. -/
theorem map_snd_collisions (records : List Record) :
    (collisions records).map (·.2) =
      (collisions (records.filter (·.kind == .wrapped))).map (·.2) := by
  induction records using List.reverseRecOn with
  | nil => rfl
  | append_singleton records r ih =>
    rw [collisions_append_singleton, List.filter_append, List.map_append, ih]
    by_cases hkind : r.kind = .wrapped
    · have hfind : (records.filter (·.kind == .wrapped)).find? (·.wraps r.identifier) =
          records.find? (·.wraps r.identifier) := by
        rw [List.find?_filter]
        refine congrArg (List.find? · records) (funext fun e => ?_)
        rw [Bool.eq_iff_iff, decide_eq_true_iff, Record.wraps_iff, beq_iff_eq, ← and_assoc,
          and_self]
      have hsame : collision? (records.filter (·.kind == .wrapped)) r = collision? records r := by
        rw [collision?, hfind, collision?]
      rw [List.filter_cons_of_pos (by simp [hkind]), List.filter_nil, collisions_append_singleton,
        List.map_append, hsame]
      cases collision? records r <;> rfl
    · have hnone : collision? records r = none := if_neg hkind
      rw [hnone, List.filter_cons_of_neg (by simp [hkind]), List.filter_nil, List.append_nil]
      exact List.append_nil _

/-! ## What is reported -/

/-- Modules at different places are all first occurrences. -/
theorem firstPlaced_eq_self {ms : List Module} (h : PlacedApart (·.path) ms) :
    firstPlaced ms = ms := by
  induction ms with
  | nil => rfl
  | cons m ms ih =>
    obtain ⟨hm, hms⟩ := List.pairwise_cons.1 h
    rw [firstPlaced, ih hms]
    refine congrArg (m :: ·) (List.filter_eq_self.2 fun d hd => decide_eq_true fun he => ?_)
    exact hm d hd (Setoid.symm he)

/-- What is reported about a wrapper and its owner. -/
def sharedNotice (style : BundleStyle) (pair : Record × Record) : Notice :=
  .wrapperShared pair.1.name pair.2.name (style.functionPrefix ++ pair.2.identifier)

namespace Bundle

variable {b : Bundle}

/-- **What one more module adds** to the collisions is reported. -/
theorem collisions_addLibrary (b : Bundle) (m : Module) :
    ∃ new, collisions (b.addLibrary m).records = collisions b.records ++ new ∧
      (b.additionNotices m).filter (·.isShared) = new.map fun c => sharedNotice b.style c.2 := by
  rw [addLibrary, additionNotices]
  cases b.wrapperOfPath? m.path with
  | some wrapper =>
    refine ⟨[], ?_, rfl⟩
    rw [List.append_nil]
    exact collisions_append_aliases b.records (fun _ => rfl) _
  | none =>
    have hrecords : (b.addWrapper m).records = b.records ++ [m.record .wrapped] ++
        m.aliases.map fun name => { m.record .alias with name } := by
      rw [List.append_assoc]
      rfl
    have hcollision : collision? b.records (m.record .wrapped) =
        (b.ownerOf? (Lua.identifierOf m.name)).map (·, m.record .wrapped) := if_pos rfl
    refine ⟨((collision? b.records (m.record .wrapped)).map (b.records.length, ·)).toList, ?_, ?_⟩
    · dsimp only
      rw [hrecords, collisions_append_aliases _ fun _ => rfl, collisions_append_singleton]
    · rw [hcollision]
      dsimp only
      cases b.ownerOf? (Lua.identifierOf m.name) <;> rfl

theorem style_addLibrary (b : Bundle) (m : Module) : (b.addLibrary m).style = b.style := by
  rw [addLibrary]
  cases b.wrapperOfPath? m.path <;> rfl

/-- **What some modules add** to the collisions is reported. -/
theorem collisions_addLibraries (b : Bundle) (ms : List Module) :
    ∃ new, collisions (b.addLibraries ms).1.records = collisions b.records ++ new ∧
      (b.addLibraries ms).2.filter (·.isShared) = new.map fun c => sharedNotice b.style c.2 := by
  induction ms generalizing b with
  | nil => exact ⟨[], (List.append_nil _).symm, rfl⟩
  | cons m ms ih =>
    obtain ⟨first, hfirst, hnotices⟩ := b.collisions_addLibrary m
    obtain ⟨rest, hrest, hnotices'⟩ := ih (b.addLibrary m)
    refine ⟨first ++ rest, ?_, ?_⟩
    · rw [← List.append_assoc, ← hfirst]
      exact hrest
    · rw [style_addLibrary] at hnotices'
      rw [List.map_append, ← hnotices, ← hnotices', ← List.filter_append]
      rfl

/-- What a bundle reports about wrapper names is the list of its collisions. -/
theorem filter_notices_ofModules (style : BundleStyle) (libraries : List Module) (entry : Module) :
    (ofModules style (libraries ++ [entry])).notices.filter (·.isShared) =
      (collisions ((addLibraries { style } libraries).1.addEntry entry).records).map
        fun c => sharedNotice style c.2 := by
  obtain ⟨new, hnew, hnotices⟩ := ({ style } : Bundle).collisions_addLibraries libraries
  have hentry : collisions ((addLibraries { style } libraries).1.addEntry entry).records = new :=
    (collisions_append_of_not_wrapped _ (by simp)).trans hnew
  rw [hentry, ← hnotices, ofModules, List.getLast?_concat, List.dropLast_concat]
  simp only [Logged.noteAll, Logged.notices_bind_ok, List.filter_append]
  refine List.append_right_eq_self.2 ?_
  cases entry.aliases.isEmpty <;>
    cases ((addLibraries { style } libraries).1.addEntry entry).exceedsLocals <;> rfl

/-- The wrappers of a bundle are those of the first occurrences. -/
theorem filter_records_addEntry (style : BundleStyle) (libraries : List Module) (entry : Module) :
    ((addLibraries { style } libraries).1.addEntry entry).records.filter (·.kind == .wrapped) =
      (firstPlaced libraries).map (·.record .wrapped) := by
  have hwrapped : ∀ records : List Record, records.filter (·.kind == .wrapped) =
      (records.filter (·.kind != .alias)).filter (·.kind == .wrapped) := by
    intro records
    rw [List.filter_filter]
    refine List.filter_congr fun r _ => ?_
    cases r.kind <;> rfl
  have hall : ∀ r ∈ (firstPlaced libraries).map (·.record .wrapped), r.kind == .wrapped := by
    intro r hr
    obtain ⟨m, _, rfl⟩ := List.mem_map.1 hr
    rfl
  rw [addEntry, List.filter_append, hwrapped, (registered_addLibraries style libraries).records,
    List.filter_eq_self.2 hall]
  exact List.append_nil _

/-- What a bundle reports about wrapper names depends on the first occurrences alone. -/
theorem filter_notices_eq_firstPlaced (style : BundleStyle) (libraries : List Module)
    (entry : Module) :
    (ofModules style (libraries ++ [entry])).notices.filter (·.isShared) =
      ((collisions ((firstPlaced libraries).map (·.record .wrapped))).map (·.2)).map
        (sharedNotice style) := by
  rw [filter_notices_ofModules, ← filter_records_addEntry style libraries entry,
    ← map_snd_collisions, List.map_map]
  rfl

/-- The first occurrences of the modules of a list, without their aliases. -/
def firstNames (libraries : List Module) : List Module :=
  (firstPlaced libraries).map fun m => { m with aliases := [] }

theorem firstPlaced_firstNames (libraries : List Module) :
    firstPlaced (firstNames libraries) = firstNames libraries := by
  refine firstPlaced_eq_self ?_
  exact List.pairwise_map.2 (placedApart_firstPlaced libraries)

/-- A chain of three, with a repeated file and an alias between them.  The entry has the identifier
as well. -/
example :
    let libraries : List Module :=
      [{ name := "a.b", aliases := ["a-b"], path := ⟨"/p/a/b.lua"⟩ },
        { name := "a_b", path := ⟨"/p/a_b.lua"⟩ }, { name := "a b", path := ⟨"/p/a//b.lua"⟩ },
        { name := "a:b", path := ⟨"/p/a:b.lua"⟩ }]
    (ofModules {} (libraries ++ [{ name := "a_b", path := ⟨"/p/main.lua"⟩ }])).notices.filter
        (·.isShared) =
      [.wrapperShared "a.b" "a_b" "_loaded_mod_a_b",
        .wrapperShared "a.b" "a:b" "_loaded_mod_a_b"] := by
  decide +kernel

end Bundle

end LuaBundle
