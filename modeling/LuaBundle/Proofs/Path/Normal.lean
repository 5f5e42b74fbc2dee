import LuaBundle.Module

/-!
# Normal paths

Normalising a path gives a normal path, and two normal paths are the same place only if they are
spelled alike.  So among normal paths `≈` is equality, which is what makes the text of a path usable
as the name of a file.

* `Path.steps_ofSteps_pieces`, `Path.steps_ofSteps_root` — the canonical spelling of some steps is
  read back as these steps, as long as each of them but a leading root is a piece between two
  slashes;
* `Path.normalize_steps_normalize` — a normal form is its own normal form;
* `Path.normal_normalize` and `Path.Normal.eq_of_equiv` — the two statements above.
-/

set_option autoImplicit false

namespace LuaBundle

namespace Text

theorem segments_eq_splitOnP (sep : Char → Bool) (cs : List Char) :
    segments sep cs = cs.splitOnP sep := by
  induction cs with
  | nil => rfl
  | cons c cs ih =>
    rw [segments, List.splitOnP_cons_eq_if_modifyHead, ← ih]
    split
    · rfl
    · cases h : segments sep cs with
      | nil => exact absurd h (segments_ne_nil sep cs)
      | cons piece pieces => rfl

/-- Pieces without separators are got back when they are joined and cut again. -/
theorem segments_intercalate {sep : Char} {pieces : List (List Char)}
    (hs : ∀ piece ∈ pieces, sep ∉ piece) (hne : pieces ≠ []) :
    segments (· == sep) ([sep].intercalate pieces) = pieces := by
  rw [segments_eq_splitOnP, ← List.splitOn_eq_splitOnP, List.splitOn_intercalate sep hs hne]

end Text

namespace Step

/-- A step that is written as one piece between two slashes: `..` or a name that can be read
back. -/
def IsPiece (s : Step) : Prop :=
  ofPiece? s.text.toList = some s ∧ '/' ∉ s.text.toList

theorem isPiece_up : up.IsPiece := by
  refine ⟨rfl, ?_⟩
  decide

/-- What a piece of a path stands for is written as a piece. -/
theorem isPiece_of_ofPiece? {cs : List Char} {s : Step} (hcs : '/' ∉ cs)
    (h : ofPiece? cs = some s) : s.IsPiece := by
  unfold ofPiece? at h
  split at h
  · simp at h
  · simp at h
  · cases h
    exact isPiece_up
  · next h1 h2 h3 =>
    cases h
    refine ⟨?_, by simpa [text] using hcs⟩
    rw [text, String.toList_ofList, ofPiece?]
    · exact h1
    · exact h2
    · exact h3

/-- A piece stands for the same step at the start of a path and further on. -/
theorem IsPiece.ofFirstPiece? {s : Step} (h : s.IsPiece) (more : Bool) :
    Step.ofFirstPiece? more s.text.toList = some s := by
  rw [Step.ofFirstPiece?]
  · exact h.1
  · intro he
    simp [he, IsPiece, ofPiece?] at h
  · intro he
    simp [he, IsPiece, ofPiece?] at h

/-! ## Normal forms of steps -/

/-- The stacks that `push` works on: some pieces, with the root below them if there is one. -/
inductive IsStack : List Step → Prop
  | nil : IsStack []
  | bottom : IsStack [root]
  | push {s : Step} {stack : List Step} (hs : s.IsPiece) (h : IsStack stack)
      (hpush : Step.push stack s = s :: stack) : IsStack (s :: stack)

theorem IsStack.push_step {stack : List Step} (h : IsStack stack) {s : Step}
    (hs : s = here ∨ s = root ∨ s.IsPiece) : IsStack (Step.push stack s) := by
  rcases hs with rfl | rfl | hs
  · cases stack <;> exact h
  · cases stack <;> exact .bottom
  · cases s with
    | here => exact absurd hs.1 (by decide)
    | root => exact absurd hs.1 (by decide)
    | name n => exact .push hs h rfl
    | up =>
      cases h with
      | nil => exact .push hs .nil rfl
      | bottom => exact .bottom
      | @push t stack ht h hp =>
        cases t with
        | here => exact absurd ht.1 (by decide)
        | root => exact absurd ht.1 (by decide)
        | name n => exact h
        | up => exact .push hs (.push ht h hp) rfl

/-- Pushing the steps of a stack one by one, the last one first, builds that stack. -/
theorem IsStack.foldl_push_reverse {stack : List Step} (h : IsStack stack) :
    stack.reverse.foldl Step.push [] = stack := by
  induction h with
  | nil => rfl
  | bottom => rfl
  | push hs h hp ih => rw [List.reverse_cons, List.foldl_append, ih, List.foldl_cons, hp,
      List.foldl_nil]

theorem isStack_foldl_push {steps stack : List Step} (h : IsStack stack)
    (hs : ∀ s ∈ steps, s = here ∨ s = root ∨ s.IsPiece) :
    IsStack (steps.foldl Step.push stack) := by
  induction steps generalizing stack with
  | nil => exact h
  | cons s steps ih =>
    exact ih (h.push_step (hs s List.mem_cons_self)) fun t ht => hs t (List.mem_cons_of_mem _ ht)

/-- A stack, read from the bottom, is some pieces, perhaps below the root. -/
theorem IsStack.exists_pieces {stack : List Step} (h : IsStack stack) :
    ∃ pieces : List Step, (∀ s ∈ pieces, s.IsPiece) ∧
      (stack.reverse = pieces ∨ stack.reverse = root :: pieces) := by
  induction h with
  | nil => exact ⟨[], by simp, .inl rfl⟩
  | bottom => exact ⟨[], by simp, .inr rfl⟩
  | @push s stack hs _ _ ih =>
    obtain ⟨pieces, hp, he⟩ := ih
    refine ⟨pieces ++ [s], fun t ht => ?_, ?_⟩
    · rcases List.mem_append.1 ht with ht | ht
      · exact hp t ht
      · rwa [List.mem_singleton.1 ht]
    · rw [List.reverse_cons]
      exact he.imp (congrArg (· ++ [s])) (congrArg (· ++ [s]))

end Step

namespace Path

/-! ## The steps of a path -/

theorem not_mem_slash_of_mem_pieces {p : Path} {piece : List Char} (h : piece ∈ p.pieces) :
    '/' ∉ piece :=
  fun hs => by simpa using Text.not_mem_of_mem_segments h _ hs

theorem isPiece_of_mem_steps {p : Path} {s : Step} (h : s ∈ p.steps) :
    s = .here ∨ s = .root ∨ s.IsPiece := by
  obtain ⟨move, hm, hs⟩ := List.mem_flatMap.1 h
  rw [Option.mem_toList] at hs
  subst hs
  unfold moves at hm
  split at hm
  · simp at hm
  · next first rest hp =>
    have hslash : ∀ piece ∈ first :: rest, '/' ∉ piece :=
      fun piece hmem => not_mem_slash_of_mem_pieces (p := p) (hp ▸ hmem)
    rcases List.mem_cons.1 hm with hm | hm
    · unfold Step.ofFirstPiece? at hm
      split at hm
      · split at hm
        · cases hm
          exact .inr (.inl rfl)
        · simp at hm
      · cases hm
        exact .inl rfl
      · exact .inr (.inr (Step.isPiece_of_ofPiece? (hslash _ List.mem_cons_self) hm.symm))
    · obtain ⟨piece, hmem, hm⟩ := List.mem_map.1 hm
      exact .inr (.inr (Step.isPiece_of_ofPiece? (hslash _ (List.mem_cons_of_mem _ hmem)) hm))

theorem flatMap_ofPiece? {steps : List Step} (h : ∀ s ∈ steps, s.IsPiece) :
    ((steps.map (·.text.toList)).map Step.ofPiece?).flatMap Option.toList = steps := by
  induction steps with
  | nil => rfl
  | cons s steps ih =>
    rw [List.map_cons, List.map_cons, List.flatMap_cons, (h s List.mem_cons_self).1,
      ih fun t ht => h t (List.mem_cons_of_mem _ ht)]
    rfl

/-- The pieces of the text that joins some pieces. -/
theorem segments_join {steps : List Step} (h : ∀ s ∈ steps, s.IsPiece) (hne : steps ≠ []) :
    Text.segments (· == '/') ("/".intercalate (steps.map Step.text)).toList
      = steps.map (·.text.toList) := by
  rw [String.toList_intercalate, List.map_map]
  refine Text.segments_intercalate (fun piece hp => ?_) (by simpa using hne)
  obtain ⟨s, hs, rfl⟩ := List.mem_map.1 hp
  exact (h s hs).2

theorem ofSteps_eq {steps : List Step} (h : ∀ s ∈ steps, s.IsPiece) :
    ofSteps steps = ⟨"/".intercalate (steps.map Step.text)⟩ := by
  cases steps with
  | nil => rfl
  | cons s rest =>
    cases s with
    | root => exact absurd (h _ List.mem_cons_self).1 (by decide)
    | here | up | name => rfl

theorem pieces_ofSteps {steps : List Step} (h : ∀ s ∈ steps, s.IsPiece) (hne : steps ≠ []) :
    (ofSteps steps).pieces = steps.map (·.text.toList) := by
  rw [ofSteps_eq h, pieces, segments_join h hne]

theorem pieces_ofSteps_root {steps : List Step} (h : ∀ s ∈ steps, s.IsPiece) (hne : steps ≠ []) :
    (ofSteps (.root :: steps)).pieces = [] :: steps.map (·.text.toList) := by
  rw [← segments_join h hne, pieces, ofSteps, String.toList_append]
  rfl

theorem steps_ofSteps_pieces {steps : List Step} (h : ∀ s ∈ steps, s.IsPiece) :
    (ofSteps steps).steps = steps := by
  cases steps with
  | nil => rfl
  | cons s rest =>
    obtain ⟨hs, hrest⟩ := List.forall_mem_cons.1 h
    rw [Path.steps, moves, pieces_ofSteps h (by simp)]
    simp only [List.map_cons, hs.ofFirstPiece?, List.flatMap_cons]
    rw [flatMap_ofPiece? hrest]
    rfl

theorem steps_ofSteps_root {steps : List Step} (h : ∀ s ∈ steps, s.IsPiece) :
    (ofSteps (.root :: steps)).steps = .root :: steps := by
  cases steps with
  | nil => decide
  | cons s rest =>
    rw [Path.steps, moves, pieces_ofSteps_root h (by simp)]
    exact congrArg (Step.root :: ·) (flatMap_ofPiece? h)

/-! ## Normal paths -/

theorem isStack_foldl_push_steps (p : Path) : Step.IsStack (p.steps.foldl Step.push []) :=
  Step.isStack_foldl_push .nil fun _ => isPiece_of_mem_steps

/-- The canonical spelling of a stack is read back as the stack. -/
theorem steps_ofSteps_reverse {stack : List Step} (h : Step.IsStack stack) :
    (ofSteps stack.reverse).steps = stack.reverse := by
  obtain ⟨pieces, hpieces, he | he⟩ := h.exists_pieces
  · rw [he, steps_ofSteps_pieces hpieces]
  · rw [he, steps_ofSteps_root hpieces]

/-- A normalised path takes the steps of the normal form. -/
theorem steps_normalize (p : Path) : p.normalize.steps = Step.normalize p.steps :=
  steps_ofSteps_reverse p.isStack_foldl_push_steps

/-- A normal form is its own normal form. -/
theorem normalize_steps_normalize (p : Path) :
    Step.normalize (Step.normalize p.steps) = Step.normalize p.steps := by
  have h := p.isStack_foldl_push_steps.foldl_push_reverse
  rw [Step.normalize, Step.normalize, h]

/-- **Normalising makes a path normal.** -/
theorem normal_normalize (p : Path) : p.normalize.Normal where
  steps_eq := by rw [steps_normalize, normalize_steps_normalize]
  eq_ofSteps := by rw [steps_normalize, normalize]

/-- **Normal paths are the same place only if they are spelled alike.** -/
theorem Normal.eq_of_equiv {p q : Path} (hp : p.Normal) (hq : q.Normal) (h : p ≈ q) : p = q := by
  rw [hp.eq_ofSteps, hq.eq_ofSteps, equiv_iff.1 h]

theorem Normal.equiv_iff_eq {p q : Path} (hp : p.Normal) (hq : q.Normal) : p ≈ q ↔ p = q :=
  ⟨hp.eq_of_equiv hq, equiv_of_eq⟩

theorem normal_importPath (base : Path) (name extension : String) :
    (importPath base name extension).Normal := by
  rw [importPath]
  exact normal_normalize _

end Path

end LuaBundle
