import LuaBundle.Proofs.Path.Places
import LuaBundle.Proofs.Project.Requires

/-!
# Visits as derivations

`Walk.visitAll` is a recursive program; `Walk.Visits` is the same walk as an inductive relation,
with one rule for each thing that can happen to the first of some visits: its path was entered
before, its file cannot be read, something that it requires cannot be read, or it is finished.  That
the program takes these steps and no others is `Walk.visits_iff`, and from there on the program is
not looked at again.

* `Visits.preserves` — the induction, once: what each change to a walk keeps, all visits keep.
* `Visits.extends` — a walk only grows, and what it finishes it has entered itself.
* `Visits.sound` — nothing is entered, found or finished twice, what is found was read at its path,
  and what is finished was found.
* `Visits.visited` — visits that do not fail enter all paths that they are given, and what is found
  there has all names that they are given.
-/

set_option autoImplicit false

namespace LuaBundle

namespace Walk

variable {s : Scope} {w w' : Walk} {visits : List (String × Path)} {failure? : Option ReadFailure}

/-- What some visits make of a walk: the walk afterwards, and the failure that ended them early. -/
inductive Visits (s : Scope) : List (String × Path) → Walk → Walk → Option ReadFailure → Prop
  | nil {w : Walk} : Visits s [] w w none
  /-- The path was entered before. -/
  | again {name : String} {p : Path} {rest : List (String × Path)} {w w' : Walk}
      {failure? : Option ReadFailure} (hp : w.hasEntered p)
      (h : Visits s rest (w.addName name p) w' failure?) :
      Visits s ((name, p) :: rest) w w' failure?
  /-- The file cannot be read. -/
  | unreadable {name : String} {p : Path} {rest : List (String × Path)} {w : Walk} {e : ReadFailure}
      (hp : ¬ w.hasEntered p) (hl : load s.files p = .error e) :
      Visits s ((name, p) :: rest) w (w.enter p) (some e)
  /-- Something that the file requires cannot be read. -/
  | broken {name : String} {p : Path} {rest : List (String × Path)} {w w' : Walk} {e : ReadFailure}
      {source? : Option String} (hp : ¬ w.hasEntered p) (hl : load s.files p = .ok source?)
      (h : Visits s (pending s source?) ((w.enter p).addModule s name p source?) w' (some e)) :
      Visits s ((name, p) :: rest) w w' (some e)
  /-- All that the file requires is visited, and then the rest. -/
  | finish {name : String} {p : Path} {rest : List (String × Path)} {w w₁ w' : Walk}
      {failure? : Option ReadFailure} {source? : Option String} (hp : ¬ w.hasEntered p)
      (hl : load s.files p = .ok source?)
      (h : Visits s (pending s source?) ((w.enter p).addModule s name p source?) w₁ none)
      (h' : Visits s rest (w₁.finish p) w' failure?) :
      Visits s ((name, p) :: rest) w w' failure?

/-- **The program takes these steps.** -/
theorem visits_visitAll (s : Scope) (visits : List (String × Path)) (w : Walk) :
    Visits s visits w (visitAll s visits w).1.1 (visitAll s visits w).1.2 := by
  fun_induction visitAll s visits w with
  | case1 => exact .nil
  | case2 w name p rest hp r hr hs ih =>
    rw [hs] at ih
    exact .again hp ih
  | case3 w name p rest hp e hl => exact .unreadable hp hl
  | case4 w name p rest hp source? hl w₁ e hw hs ih =>
    rw [hs] at ih
    exact .broken hp hl ih
  | case5 w name p rest hp source? hl w₁ hw hs r hr hs' ih ih' =>
    rw [hs] at ih
    rw [hs'] at ih'
    exact .finish hp hl ih ih'

theorem visits_visit (s : Scope) (name : String) (p : Path) (w : Walk) :
    Visits s [(name, p)] w (visit s name p w).1 (visit s name p w).2 :=
  visits_visitAll s _ w

theorem Visits.unique {w₁ w₂ : Walk} {failure₁? failure₂? : Option ReadFailure}
    (h₁ : Visits s visits w w₁ failure₁?) (h₂ : Visits s visits w w₂ failure₂?) :
    w₁ = w₂ ∧ failure₁? = failure₂? := by
  induction h₁ generalizing w₂ failure₂? with
  | nil =>
    cases h₂
    exact ⟨rfl, rfl⟩
  | again hp _ ih =>
    cases h₂ with
    | again _ h => exact ih h
    | unreadable hq _ | broken hq _ _ | finish hq _ _ _ => exact absurd hp hq
  | unreadable hp hl =>
    cases h₂ with
    | again hq _ => exact absurd hq hp
    | unreadable _ hk =>
      rw [hl, Except.error.injEq] at hk
      exact ⟨rfl, congrArg some hk⟩
    | broken _ hk _ | finish _ hk _ _ => simp [hl] at hk
  | broken hp hl _ ih =>
    cases h₂ with
    | again hq _ => exact absurd hq hp
    | unreadable _ hk => simp [hl] at hk
    | broken _ hk h =>
      obtain rfl := Except.ok.inj (hl.symm.trans hk)
      exact ih h
    | finish _ hk h _ =>
      obtain rfl := Except.ok.inj (hl.symm.trans hk)
      exact absurd (ih h).2 (by simp)
  | finish hp hl _ _ ih ih' =>
    cases h₂ with
    | again hq _ => exact absurd hq hp
    | unreadable _ hk => simp [hl] at hk
    | broken _ hk h =>
      obtain rfl := Except.ok.inj (hl.symm.trans hk)
      exact absurd (ih h).2 (by simp)
    | finish _ hk h h' =>
      obtain rfl := Except.ok.inj (hl.symm.trans hk)
      obtain ⟨rfl, _⟩ := ih h
      exact ih' h'

/-- **The program takes these steps and no others.** -/
theorem visits_iff {name : String} {p : Path} :
    Visits s [(name, p)] w w' failure? ↔ visit s name p w = (w', failure?) := by
  constructor
  · intro h
    obtain ⟨hw, hf⟩ := (visits_visit s name p w).unique h
    exact Prod.ext hw hf
  · intro h
    have hv := visits_visit s name p w
    rwa [h] at hv

/-- **What each change to a walk keeps, all visits keep.**  A path is finished after the visits that
follow from it. -/
theorem Visits.preserves {I : Walk → Prop}
    (again : ∀ {w : Walk} {name : String} {p : Path}, w.hasEntered p → I w → I (w.addName name p))
    (enter : ∀ {w : Walk} {p : Path}, ¬ w.hasEntered p → I w → I (w.enter p))
    (add : ∀ {w : Walk} {name : String} {p : Path} {source? : Option String}, ¬ w.hasEntered p →
      load s.files p = .ok source? → I w → I ((w.enter p).addModule s name p source?))
    (finish : ∀ {w w₁ : Walk} {name : String} {p : Path} {source? : Option String},
      ¬ w.hasEntered p → load s.files p = .ok source? → I w →
      Visits s (pending s source?) ((w.enter p).addModule s name p source?) w₁ none → I w₁ →
      I (w₁.finish p))
    (h : Visits s visits w w' failure?) (hw : I w) : I w' := by
  induction h with
  | nil => exact hw
  | again hp _ ih => exact ih (again hp hw)
  | unreadable hp _ => exact enter hp hw
  | broken hp hl _ ih => exact ih (add hp hl hw)
  | finish hp hl h _ ih ih' => exact ih' (finish hp hl hw h (ih (add hp hl hw)))

/-! ## What the changes do -/

theorem map_path_addName (w : Walk) (name : String) (p : Path) :
    (w.addName name p).found.map (·.path) = w.found.map (·.path) := by
  unfold addName
  split
  · rfl
  · split
    · rfl
    · rw [List.map_map]
      refine List.map_congr_left fun m _ => ?_
      simp only [Function.comp_apply]
      split <;> rfl

@[simp] theorem finished_addName (w : Walk) (name : String) (p : Path) :
    (w.addName name p).finished = w.finished := by
  unfold addName
  split
  · rfl
  · split <;> rfl

/-- A new name changes nothing else about what was found. -/
theorem exists_of_mem_addName {name : String} {p : Path} {m : Module}
    (h : m ∈ (w.addName name p).found) :
    ∃ n ∈ w.found, m = n ∨ (n.path ≈ p ∧ m = { n with aliases := n.aliases ++ [name] }) := by
  unfold addName at h
  split at h
  · exact ⟨m, h, .inl rfl⟩
  · split at h
    · exact ⟨m, h, .inl rfl⟩
    · obtain ⟨n, hn, he⟩ := List.mem_map.1 h
      refine ⟨n, hn, ?_⟩
      split at he
      · next hp => exact .inr ⟨hp, he.symm⟩
      · exact .inl he.symm

theorem found_addModule (name : String) (p : Path) (source? : Option String) :
    (w.addModule s name p source?).found = w.found ++
      [{ name, path := p, source?, requires := ((source?.map s.children).getD []).map (·.1) }] :=
  rfl

@[simp] theorem finished_addModule (name : String) (p : Path) (source? : Option String) :
    (w.addModule s name p source?).finished = w.finished := rfl

@[simp] theorem finished_enter (w : Walk) (p : Path) : (w.enter p).finished = w.finished := rfl

@[simp] theorem found_enter (w : Walk) (p : Path) : (w.enter p).found = w.found := rfl

@[simp] theorem finished_finish (w : Walk) (p : Path) :
    (w.finish p).finished = w.finished ++ [p] := rfl

@[simp] theorem found_finish (w : Walk) (p : Path) : (w.finish p).found = w.found := rfl

@[simp] theorem hasEntered_addModule (name : String) (p q : Path) (source? : Option String) :
    (w.addModule s name p source?).hasEntered q = w.hasEntered q := rfl

@[simp] theorem hasEntered_finish (w : Walk) (p q : Path) :
    (w.finish p).hasEntered q = w.hasEntered q := rfl

@[simp] theorem hasEntered_addName (w : Walk) (name : String) (p q : Path) :
    (w.addName name p).hasEntered q = w.hasEntered q := by
  rw [hasEntered, hasEntered, entered_addName]

theorem hasEntered_enter (w : Walk) (p q : Path) :
    (w.enter p).hasEntered q ↔ w.hasEntered q ∨ p ≈ q := by
  simp only [hasEntered, enter, List.any_append, Bool.or_eq_true, List.any_cons, List.any_nil,
    Bool.or_false, beq_iff_eq, Path.equiv_iff]

/-! ## Walks only grow -/

/-- `w'` continues `w`: nothing is lost, and what was finished on the way was entered on the way. -/
structure Extends (w w' : Walk) : Prop where
  entered : w.entered ⊆ w'.entered
  finished : w.finished ⊆ w'.finished
  found : w.found.map (·.path) ⊆ w'.found.map (·.path)
  fresh : ∀ p ∈ w'.finished, p ∈ w.finished ∨ ¬ w.hasEntered p

theorem Extends.refl (w : Walk) : Extends w w where
  entered := List.Subset.refl _
  finished := List.Subset.refl _
  found := List.Subset.refl _
  fresh _ h := .inl h

theorem Extends.trans {w₁ w₂ w₃ : Walk} (h : Extends w₁ w₂) (h' : Extends w₂ w₃) :
    Extends w₁ w₃ where
  entered := List.Subset.trans h.entered h'.entered
  finished := List.Subset.trans h.finished h'.finished
  found := List.Subset.trans h.found h'.found
  fresh p hp := by
    rcases h'.fresh p hp with hp | hp
    · exact h.fresh p hp
    · exact .inr fun he => hp (hasEntered_mono h.entered he)

theorem extends_addName (w : Walk) (name : String) (p : Path) : Extends w (w.addName name p) where
  entered := by simp
  finished := by simp
  found := by rw [map_path_addName]; exact List.Subset.refl _
  fresh q hq := .inl (by simpa using hq)

theorem extends_addModule (w : Walk) (name : String) (p : Path) (source? : Option String) :
    Extends w ((w.enter p).addModule s name p source?) where
  entered := by simp
  finished := by simp
  found := by simp [found_addModule]
  fresh q hq := .inl (by simpa using hq)

/-- Finishing a path, seen from before it was entered. -/
theorem Extends.finish {w₁ : Walk} (h : Extends w w₁) {p : Path} (hp : ¬ w.hasEntered p) :
    Extends w (w₁.finish p) where
  entered := h.entered
  finished := List.subset_append_of_subset_left _ h.finished
  found := h.found
  fresh q hq := by
    rcases List.mem_append.1 hq with hq | hq
    · exact h.fresh q hq
    · rw [List.mem_singleton.1 hq]
      exact .inr hp

theorem Visits.extends (h : Visits s visits w w' failure?) : Extends w w' := by
  induction h with
  | nil => exact .refl _
  | again _ _ ih => exact (extends_addName _ _ _).trans ih
  | @unreadable name p rest w e hp _ =>
    exact ⟨by simp, by simp, by simp, fun q hq => .inl (by simpa using hq)⟩
  | broken _ _ _ ih => exact (extends_addModule _ _ _ _).trans ih
  | finish hp _ _ _ ih ih' => exact (((extends_addModule _ _ _ _).trans ih).finish hp).trans ih'

/-! ## What is found -/

/-- Nothing is entered, found or finished twice, what is found was read at its path, and what is
finished was found. -/
structure Sound (s : Scope) (w : Walk) : Prop where
  entered : w.entered.Pairwise (¬ · ≈ ·)
  found : (w.found.map (·.path)).Sublist w.entered
  finished : w.finished.Pairwise (¬ · ≈ ·)
  finished_found : w.finished ⊆ w.found.map (·.path)
  loaded : ∀ m ∈ w.found, load s.files m.path = .ok m.source?
  requires : ∀ m ∈ w.found, m.requires = ((m.source?.map s.children).getD []).map (·.1)

namespace Sound

theorem empty (s : Scope) : Sound s {} where
  entered := .nil
  found := .refl _
  finished := .nil
  finished_found := List.Subset.refl _
  loaded := by simp
  requires := by simp

theorem mem_entered (h : Sound s w) {m : Module} (hm : m ∈ w.found) : m.path ∈ w.entered :=
  h.found.subset (List.mem_map_of_mem hm)

theorem hasEntered (h : Sound s w) {m : Module} (hm : m ∈ w.found) : w.hasEntered m.path :=
  hasEntered_iff.2 ⟨_, h.mem_entered hm, Setoid.refl _⟩

theorem hasEntered_of_mem_finished (h : Sound s w) {p : Path} (hp : p ∈ w.finished) :
    w.hasEntered p := by
  obtain ⟨m, hm, rfl⟩ := List.mem_map.1 (h.finished_found hp)
  exact h.hasEntered hm

/-- A place is found once. -/
theorem placedApart (h : Sound s w) : PlacedApart (·.path) w.found :=
  List.pairwise_map.1 (h.entered.sublist h.found)

theorem module?_eq_some_iff (h : Sound s w) {p : Path} {m : Module} :
    w.module? p = some m ↔ m ∈ w.found ∧ m.path ≈ p :=
  h.placedApart.find?_eq_some_iff

/-- What can be read at a place was found there. -/
theorem source?_eq (h : Sound s w) {m : Module} (hm : m ∈ w.found) {text : String}
    (hr : s.files.read m.path = .ok text) : m.source? = some text := by
  have hload := h.loaded m hm
  rw [load, hr] at hload
  exact (Except.ok.inj hload).symm

theorem addName (h : Sound s w) (name : String) (p : Path) : Sound s (w.addName name p) where
  entered := by simpa using h.entered
  found := by rw [map_path_addName]; simpa using h.found
  finished := by simpa using h.finished
  finished_found := by rw [map_path_addName]; simpa using h.finished_found
  loaded m hm := by
    obtain ⟨n, hn, rfl | ⟨_, rfl⟩⟩ := exists_of_mem_addName hm
    · exact h.loaded m hn
    · exact h.loaded n hn
  requires m hm := by
    obtain ⟨n, hn, rfl | ⟨_, rfl⟩⟩ := exists_of_mem_addName hm
    · exact h.requires m hn
    · exact h.requires n hn

theorem enter (h : Sound s w) {p : Path} (hp : ¬ w.hasEntered p) : Sound s (w.enter p) where
  entered := by
    rw [entered_enter, List.pairwise_append]
    refine ⟨h.entered, List.pairwise_singleton _ _, fun q hq r hr he => hp ?_⟩
    exact hasEntered_iff.2 ⟨q, hq, List.mem_singleton.1 hr ▸ he⟩
  found := h.found.trans (List.sublist_append_left _ _)
  finished := h.finished
  finished_found := h.finished_found
  loaded := h.loaded
  requires := h.requires

theorem addModule (h : Sound s w) {p : Path} (hp : ¬ w.hasEntered p) (name : String)
    {source? : Option String} (hl : load s.files p = .ok source?) :
    Sound s ((w.enter p).addModule s name p source?) where
  entered := (h.enter hp).entered
  found := by
    rw [found_addModule, List.map_append]
    exact h.found.append_right [p]
  finished := h.finished
  finished_found := by
    rw [found_addModule, List.map_append]
    exact List.subset_append_of_subset_left _ h.finished_found
  loaded m hm := by
    rcases List.mem_append.1 hm with hm | hm
    · exact h.loaded m hm
    · rw [List.mem_singleton.1 hm, hl]
  requires m hm := by
    rcases List.mem_append.1 hm with hm | hm
    · exact h.requires m hm
    · rw [List.mem_singleton.1 hm]

theorem finish (h : Sound s w) {p : Path} (hf : p ∈ w.found.map (·.path))
    (hp : ∀ q ∈ w.finished, ¬ q ≈ p) : Sound s (w.finish p) where
  entered := h.entered
  found := h.found
  finished := by
    rw [finished_finish, List.pairwise_append]
    refine ⟨h.finished, List.pairwise_singleton _ _, fun q hq r hr => ?_⟩
    rw [List.mem_singleton.1 hr]
    exact hp q hq
  finished_found := by
    rw [finished_finish, List.append_subset]
    exact ⟨h.finished_found, by simpa using hf⟩
  loaded := h.loaded
  requires := h.requires

end Sound

/-- What is finished on the way from the entering of a path is not that path. -/
theorem Visits.not_equiv_of_mem_finished {name : String} {p : Path} {source? : Option String}
    (h : Visits s visits ((w.enter p).addModule s name p source?) w' failure?) (hw : Sound s w)
    (hp : ¬ w.hasEntered p) : ∀ q ∈ w'.finished, ¬ q ≈ p := by
  intro q hq he
  rcases h.extends.fresh q hq with hq | hq
  · obtain ⟨r, hr, hrq⟩ := hasEntered_iff.1 (hw.hasEntered_of_mem_finished hq)
    exact hp (hasEntered_iff.2 ⟨r, hr, Setoid.trans hrq he⟩)
  · rw [hasEntered_addModule, hasEntered_enter] at hq
    exact hq (.inr (Setoid.symm he))

/-- A path can be finished after the visits that follow from it. -/
theorem Visits.sound_finish {name : String} {p : Path} {source? : Option String}
    (h : Visits s visits ((w.enter p).addModule s name p source?) w' failure?) (hw : Sound s w)
    (hp : ¬ w.hasEntered p) (hw' : Sound s w') : Sound s (w'.finish p) := by
  refine hw'.finish (h.extends.found ?_) (h.not_equiv_of_mem_finished hw hp)
  simp [found_addModule]

theorem Visits.sound (h : Visits s visits w w' failure?) (hw : Sound s w) : Sound s w' :=
  h.preserves (fun _ hw => hw.addName _ _) (fun hp hw => hw.enter hp)
    (fun hp hl hw => hw.addModule hp _ hl) (fun hp _ hw h hw₁ => h.sound_finish hw hp hw₁) hw

/-! ## What is visited -/

/-- A path was entered, and if it was found, then it has the given name. -/
def Visited (w : Walk) (v : String × Path) : Prop :=
  w.hasEntered v.2 ∧ ∀ m ∈ w.found, m.path ≈ v.2 → v.1 ∈ m.names

theorem Visited.addName {v : String × Path} (h : Visited w v) (name : String) (p : Path) :
    Visited (w.addName name p) v := by
  refine ⟨by simpa using h.1, fun m hm he => ?_⟩
  obtain ⟨n, hn, rfl | ⟨_, rfl⟩⟩ := exists_of_mem_addName hm
  · exact h.2 m hn he
  · rw [Module.names, ← List.cons_append]
    exact List.mem_append_left _ (h.2 n hn he)

theorem Visited.addModule {v : String × Path} (h : Visited w v) {p : Path}
    (hp : ¬ w.hasEntered p) (name : String) (source? : Option String) :
    Visited ((w.enter p).addModule s name p source?) v := by
  refine ⟨by rw [hasEntered_addModule, hasEntered_enter]; exact .inl h.1, fun m hm he => ?_⟩
  rcases List.mem_append.1 hm with hm | hm
  · exact h.2 m hm he
  · rw [List.mem_singleton.1 hm] at he
    obtain ⟨q, hq, hqv⟩ := hasEntered_iff.1 h.1
    exact absurd (hasEntered_iff.2 ⟨q, hq, Setoid.trans hqv (Setoid.symm he)⟩) hp

theorem Visited.mono {v : String × Path} (hv : Visited w v)
    (h : Visits s visits w w' failure?) : Visited w' v :=
  h.preserves (I := (Visited · v)) (fun _ hv => hv.addName _ _)
    (fun _ hv => ⟨(hasEntered_enter _ _ _).2 (.inl hv.1), hv.2⟩)
    (fun hp _ hv => hv.addModule hp _ _) (fun _ _ _ _ hv => hv) hv

theorem Sound.visited_addName (h : Sound s w) {name : String} {p : Path} (hp : w.hasEntered p) :
    Visited (w.addName name p) (name, p) := by
  refine ⟨by simpa using hp, fun m hm he => ?_⟩
  have hfound : ∀ n, w.module? p = some n ↔ n ∈ w.found ∧ n.path ≈ p :=
    fun n => h.module?_eq_some_iff
  unfold Walk.addName at hm
  split at hm
  · next hnone => simp [(hfound m).2 ⟨hm, he⟩] at hnone
  · next n hn =>
    split at hm
    · next hname =>
      rw [(hfound m).2 ⟨hm, he⟩] at hn
      rwa [Option.some.inj hn]
    · obtain ⟨k, hk, rfl⟩ := List.mem_map.1 hm
      by_cases hkp : k.path ≈ p
      · rw [if_pos hkp, Module.names]
        simp
      · rw [if_neg hkp] at he
        exact absurd he hkp

theorem Sound.visited_addModule (h : Sound s w) {name : String} {p : Path}
    (hp : ¬ w.hasEntered p) (source? : Option String) :
    Visited ((w.enter p).addModule s name p source?) (name, p) := by
  refine ⟨(hasEntered_enter _ _ _).2 (.inr (Setoid.refl p)), fun m hm he => ?_⟩
  rcases List.mem_append.1 hm with hm | hm
  · exact absurd (hasEntered_iff.2 ⟨_, h.mem_entered hm, he⟩) hp
  · rw [List.mem_singleton.1 hm]
    exact List.mem_cons_self

/-- **Visits that do not fail visit all they should.** -/
theorem Visits.visited (h : Visits s visits w w' none) (hw : Sound s w) :
    ∀ v ∈ visits, Visited w' v := by
  generalize hn : (none : Option ReadFailure) = failure? at h
  induction h with
  | nil => simp
  | @again name p rest w w' failure? hp h ih =>
    intro v hv
    rcases List.mem_cons.1 hv with rfl | hv
    · exact (hw.visited_addName hp).mono h
    · exact ih (hw.addName _ _) hn v hv
  | unreadable => simp at hn
  | broken => simp at hn
  | @finish name p rest w w₁ w' failure? source? hp hl h h' ih ih' =>
    intro v hv
    have hw₁ : Sound s (w₁.finish p) :=
      h.sound_finish hw hp (h.sound (hw.addModule hp _ hl))
    rcases List.mem_cons.1 hv with rfl | hv
    · have hv : Visited w₁ (name, p) := (hw.visited_addModule hp source?).mono h
      exact Visited.mono (show Visited (w₁.finish p) (name, p) from hv) h'
    · exact ih' hw₁ hn v hv

end Walk

end LuaBundle
