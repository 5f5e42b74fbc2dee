import LuaBundle.Proofs.Path.Children
import Mathlib.Data.List.DropRight

/-!
# Parents

`Path.parent?` works on the text of a path.  On its steps it takes the last one away, and of its
text it keeps a part from the start.

* `exists_steps_of_parent?` — what a path has beyond its parent is one step, in any spelling;
* `exists_parent?_iff` — paths of more than one step have a parent that is not empty;
* `isPrefix_of_parent?` — the text of a parent is the start of the path's text;
* `parent?_ofSteps` and `parent?_ofSteps_root` — the parents of paths in canonical spelling;
* `Normal.of_parent?` — so the parent of a normal path is normal.
-/

set_option autoImplicit false

namespace LuaBundle

namespace Path

variable {p dir : Path}

/-! ## Steps -/

theorem flatMap_map_ofPiece? (pieces : List (List Char)) :
    (pieces.map Step.ofPiece?).flatMap Option.toList = pieces.filterMap Step.ofPiece? := by
  induction pieces with
  | nil => rfl
  | cons piece pieces ih =>
    rw [List.map_cons, List.flatMap_cons, ih]
    cases h : Step.ofPiece? piece with
    | none => exact (List.filterMap_cons_none h).symm
    | some s => exact (List.filterMap_cons_some h).symm

theorem steps_of_pieces {first : List Char} {rest : List (List Char)}
    (h : p.pieces = first :: rest) :
    p.steps =
      (Step.ofFirstPiece? (!rest.isEmpty) first).toList ++ rest.filterMap Step.ofPiece? := by
  rw [steps, moves, h]
  exact congrArg _ (flatMap_map_ofPiece? rest)

theorem isSome_ofFirstPiece? {more : Bool} {first : List Char} (h : more ∨ first ≠ []) :
    (Step.ofFirstPiece? more first).isSome := by
  unfold Step.ofFirstPiece?
  split
  · simpa using h
  · rfl
  · next hnil hhere =>
    unfold Step.ofPiece?
    split
    · exact absurd rfl hnil
    · exact absurd rfl hhere
    · rfl
    · rfl

/-- Only the empty path takes no step. -/
theorem steps_eq_nil_iff : p.steps = [] ↔ p.text = "" := by
  constructor
  · intro h
    by_contra hne
    obtain ⟨first, rest, hpieces⟩ :=
      List.exists_cons_of_ne_nil (Text.segments_ne_nil (· == '/') p.text.toList)
    have hfirst : !rest.isEmpty ∨ first ≠ [] := by
      cases rest with
      | nil =>
        have htext := Text.intercalate_segments '/' p.text.toList
        rw [hpieces] at htext
        exact .inr fun hnil => hne (String.toList_eq_nil_iff.1 (by rw [← htext, hnil]; rfl))
      | cons next rest => exact .inl rfl
    obtain ⟨s, hs⟩ := Option.isSome_iff_exists.1 (isSome_ofFirstPiece? hfirst)
    simp [steps_of_pieces hpieces, hs] at h
  · intro h
    have hp : p = ⟨""⟩ := by cases p; exact congrArg _ h
    rw [hp]
    rfl

/-- Joined pieces, read back; the first of several is the root if it is empty. -/
theorem steps_ofPieces {first : List Char} {rest : List (List Char)}
    (h : ∀ piece ∈ first :: rest, '/' ∉ piece) :
    (ofPieces (first :: rest)).steps =
      (Step.ofFirstPiece? true first).toList ++ rest.filterMap Step.ofPiece? := by
  by_cases hroot : first :: rest = [[]]
  · obtain ⟨rfl, rfl⟩ := List.cons_eq_cons.1 hroot
    rfl
  · have hpieces : (ofPieces (first :: rest)).pieces = first :: rest := by
      rw [ofPieces, pieces, String.toList_ofList, Text.segments_intercalate h (by simp)]
      exact hroot
    rw [steps_of_pieces hpieces]
    cases rest with
    | nil =>
      have hne : first ≠ [] := by simpa using hroot
      rw [Step.ofFirstPiece?_of_ne_nil hne]
    | cons next rest => rfl

theorem filterMap_dropIdleEnd (pieces : List (List Char)) :
    (dropIdleEnd pieces).filterMap Step.ofPiece? = pieces.filterMap Step.ofPiece? := by
  induction pieces using List.reverseRecOn with
  | nil => rfl
  | append_singleton pieces last ih =>
    rw [dropIdleEnd, ← List.rdropWhile, List.rdropWhile_concat]
    split
    · next hidle =>
      rw [List.filterMap_append, ← ih, List.filterMap_cons_none (Option.isNone_iff_eq_none.1 hidle)]
      exact (List.append_nil _).symm
    · rfl

/-- What `dropIdleEnd` leaves ends in a piece that stands for a step. -/
theorem exists_dropIdleEnd_eq {pieces : List (List Char)} (h : dropIdleEnd pieces ≠ []) :
    ∃ body last s, dropIdleEnd pieces = body ++ [last] ∧ Step.ofPiece? last = some s := by
  have hlast := List.rdropWhile_last_not isIdle pieces h
  obtain ⟨s, hs⟩ : ∃ s, Step.ofPiece? ((dropIdleEnd pieces).getLast h) = some s :=
    Option.ne_none_iff_exists'.1 fun hnone => hlast (Option.isNone_iff_eq_none.2 hnone)
  exact ⟨_, _, s, (List.dropLast_append_getLast h).symm, hs⟩

/-- What `parent?` does to the pieces of a path: it drops the last one that stands for a step, with
what stands for no step on both sides of it. -/
theorem cases_of_parent? (h : p.parent? = some dir) :
    (dir = ⟨""⟩ ∧ ∃ s, p.steps = [s]) ∨
      ∃ first body last s tail, p.pieces = first :: (body ++ last :: tail) ∧
        Step.ofPiece? last = some s ∧ tail.filterMap Step.ofPiece? = [] ∧
        dir = ofPieces (first :: dropIdleEnd body) := by
  unfold parent? at h
  split at h
  · simp at h
  next first rest hpieces =>
  split at h
  · next hidle =>
    have hrest : rest.filterMap Step.ofPiece? = [] := by
      rw [← filterMap_dropIdleEnd, hidle, List.filterMap_nil]
    split at h
    · simp at h
    · simp at h
    · next s _ hfirst =>
      refine .inl ⟨(Option.some.inj h).symm, s, ?_⟩
      rw [steps_of_pieces hpieces, hrest, hfirst]
      rfl
  · next hsome =>
    obtain ⟨body, last, s, hbody, hlast⟩ := exists_dropIdleEnd_eq hsome
    obtain ⟨tail, htail⟩ := List.rdropWhile_prefix isIdle rest
    have hrest : rest = body ++ [last] ++ tail := by rw [← hbody]; exact htail.symm
    have htailSteps : tail.filterMap Step.ofPiece? = [] := by
      have hsame := filterMap_dropIdleEnd rest
      rw [hbody, hrest] at hsame
      exact List.self_eq_append_right.1 (hsame.trans List.filterMap_append)
    rw [List.append_assoc] at hrest
    rw [hbody, List.dropLast_concat] at h
    exact .inr ⟨first, body, last, s, tail, hrest ▸ hpieces, hlast, htailSteps,
      (Option.some.inj h).symm⟩

/-- **What a path has beyond its parent is one step.** -/
theorem exists_steps_of_parent? (h : p.parent? = some dir) : ∃ s, p.steps = dir.steps ++ [s] := by
  obtain ⟨rfl, s, hs⟩ | ⟨first, body, last, s, tail, hpieces, hlast, htail, rfl⟩ :=
    cases_of_parent? h
  · exact ⟨s, hs⟩
  · have hslash : ∀ piece ∈ first :: dropIdleEnd body, '/' ∉ piece := by
      intro piece hmem
      refine not_mem_slash_of_mem_pieces (hpieces ▸ ?_ : piece ∈ p.pieces)
      have hbody := (List.rdropWhile_prefix isIdle body).subset
      rcases List.mem_cons.1 hmem with rfl | hmem
      · exact List.mem_cons_self
      · exact List.mem_cons_of_mem _ (List.mem_append_left _ (hbody hmem))
    have hmore : (body ++ last :: tail).isEmpty = false := by simp
    refine ⟨s, ?_⟩
    rw [steps_of_pieces hpieces, steps_ofPieces hslash, filterMap_dropIdleEnd, hmore,
      List.filterMap_append, List.filterMap_cons_some hlast, htail, List.append_assoc]
    rfl

/-- A path without a parent takes no more than one step. -/
theorem length_steps_le_one (h : p.parent? = none) : p.steps.length ≤ 1 := by
  unfold parent? at h
  split at h
  · next hpieces => exact absurd hpieces (Text.segments_ne_nil _ _)
  next first rest hpieces =>
  split at h
  · next hidle =>
    have hrest : rest.filterMap Step.ofPiece? = [] := by
      rw [← filterMap_dropIdleEnd, hidle, List.filterMap_nil]
    rw [steps_of_pieces hpieces, hrest, List.append_nil]
    exact Option.length_toList_le
  · simp at h

/-- **A path has a parent that is not empty** if it takes more than one step. -/
theorem exists_parent?_iff :
    (∃ dir, p.parent? = some dir ∧ dir.text ≠ "") ↔ 1 < p.steps.length := by
  cases hparent : p.parent? with
  | none => simpa using length_steps_le_one hparent
  | some dir =>
    obtain ⟨s, hs⟩ := exists_steps_of_parent? hparent
    simp [hs, ← steps_eq_nil_iff, Nat.pos_iff_ne_zero]

/-! ## Text -/

theorem intercalate_isPrefix {sep : Char} {pieces : List (List Char)} (h : pieces ≠ [])
    (more : List (List Char)) :
    [sep].intercalate pieces <+: [sep].intercalate (pieces ++ more) := by
  induction pieces with
  | nil => exact absurd rfl h
  | cons piece pieces ih =>
    cases pieces with
    | nil =>
      cases more with
      | nil => exact List.prefix_rfl
      | cons next more =>
        rw [List.singleton_append, List.intercalate_cons_cons, List.append_assoc]
        simp [List.intercalate]
    | cons next pieces =>
      rw [List.cons_append, List.cons_append, List.intercalate_cons_cons,
        List.intercalate_cons_cons, List.prefix_append_right_inj]
      exact ih (by simp)

/-- **The text of a parent is the start of the path's text.** -/
theorem isPrefix_of_parent? (h : p.parent? = some dir) : dir.text.toList <+: p.text.toList := by
  obtain ⟨rfl, _⟩ | ⟨first, body, last, s, tail, hpieces, _, _, rfl⟩ := cases_of_parent? h
  · exact List.nil_prefix
  · have htext : p.text.toList = ['/'].intercalate (first :: (body ++ last :: tail)) := by
      rw [← hpieces, pieces, Text.intercalate_segments]
    by_cases hroot : first :: dropIdleEnd body = [[]]
    · obtain ⟨rfl, _⟩ := List.cons_eq_cons.1 hroot
      rw [hroot, htext, List.intercalate_cons_of_ne_nil (by simp)]
      exact List.prefix_append _ _
    · obtain ⟨idle, hidle⟩ := List.rdropWhile_prefix isIdle body
      have hwhole : first :: (body ++ last :: tail) =
          first :: dropIdleEnd body ++ (idle ++ last :: tail) := by
        rw [List.cons_append, ← List.append_assoc]
        exact congrArg (first :: · ++ last :: tail) hidle.symm
      rw [ofPieces, String.toList_ofList, htext, hwhole]
      · exact intercalate_isPrefix (by simp) _
      · exact hroot

/-! ## Normal paths -/

theorem dropIdleEnd_concat {body : List (List Char)} {last : List Char}
    (h : (Step.ofPiece? last).isSome) : dropIdleEnd (body ++ [last]) = body ++ [last] := by
  have hlast : ¬ isIdle last := by simpa [isIdle, Option.isSome_iff_ne_none] using h
  exact List.rdropWhile_concat_neg _ _ _ hlast

theorem dropIdleEnd_map {steps : List Step} (h : ∀ s ∈ steps, s.IsPiece) :
    dropIdleEnd (steps.map (·.text.toList)) = steps.map (·.text.toList) := by
  rcases List.eq_nil_or_concat steps with rfl | ⟨init, s, rfl⟩
  · rfl
  · have hs : s.IsPiece := h s (by simp)
    rw [List.concat_eq_append, List.map_append]
    exact dropIdleEnd_concat (by rw [hs.1]; rfl)

/-- The parent of a path that ends in a step: what stands before the last piece. -/
theorem parent?_of_pieces {first last : List Char} {rest : List (List Char)}
    (h : p.pieces = first :: rest ++ [last]) (hlast : (Step.ofPiece? last).isSome) :
    p.parent? = some (ofPieces (first :: dropIdleEnd rest)) := by
  rw [parent?, h, List.cons_append]
  dsimp only
  rw [dropIdleEnd_concat hlast]
  cases rest with
  | nil => rfl
  | cons next rest =>
    rw [List.cons_append]
    dsimp only
    rw [← List.cons_append, List.dropLast_concat]

theorem ofPieces_map {steps : List Step} (h : ∀ s ∈ steps, s.IsPiece) :
    ofPieces (steps.map (·.text.toList)) = ofSteps steps := by
  have hjoin : String.ofList (['/'].intercalate (steps.map (·.text.toList))) =
      "/".intercalate (steps.map Step.text) := by
    rw [← String.toList_inj, String.toList_ofList, String.toList_intercalate, List.map_map]
    rfl
  rw [ofSteps_eq h, ofPieces, hjoin]
  intro hroot
  obtain ⟨s, hs, he⟩ := List.map_eq_singleton_iff.1 hroot
  have hs : s.IsPiece := h s (by simp [hs])
  simp [Step.IsPiece, he, Step.ofPiece?] at hs

theorem ofPieces_nil_cons_map (steps : List Step) :
    ofPieces ([] :: steps.map (·.text.toList)) = ofSteps (.root :: steps) := by
  cases steps with
  | nil => rfl
  | cons s rest =>
    rw [ofSteps, ofPieces, Path.mk.injEq, ← String.toList_inj, String.toList_ofList,
      String.toList_append, String.toList_intercalate, List.map_map]
    · rfl
    · simp

/-- The parent of a path of one piece, which is not the root, is the empty path. -/
theorem parent?_of_piece {piece : List Char} {s : Step} (h : p.pieces = [piece])
    (hs : Step.ofFirstPiece? false piece = some s) (hroot : s ≠ .root) : p.parent? = some ⟨""⟩ := by
  unfold parent?
  split
  · next hnil => simp [h] at hnil
  next first rest hpieces =>
  obtain ⟨rfl, rfl⟩ : piece = first ∧ [] = rest := by simpa [h] using hpieces
  split
  · split
    · next hnone => exact absurd (hs.symm.trans hnone) (by simp)
    · next hsome => exact absurd (Option.some.inj (hs.symm.trans hsome)) hroot
    · rfl
  · next hne => exact absurd rfl hne

theorem parent?_ofSteps {init : List Step} {s : Step} (h : ∀ t ∈ init ++ [s], t.IsPiece) :
    (ofSteps (init ++ [s])).parent? = some (ofSteps init) := by
  have hpieces := pieces_ofSteps h (by simp)
  have hs : s.IsPiece := h s (by simp)
  cases init with
  | nil =>
    refine parent?_of_piece hpieces (hs.ofFirstPiece? false) ?_
    rintro rfl
    exact absurd hs.1 (by decide)
  | cons first init =>
    obtain ⟨hfirst, hinit⟩ := List.forall_mem_cons.1 fun t ht => h t (List.mem_append_left [s] ht)
    rw [List.map_append] at hpieces
    rw [parent?_of_pieces hpieces (by rw [hs.1]; rfl), dropIdleEnd_map hinit]
    exact congrArg some (ofPieces_map (List.forall_mem_cons.2 ⟨hfirst, hinit⟩))

theorem parent?_ofSteps_root {init : List Step} {s : Step} (h : ∀ t ∈ init ++ [s], t.IsPiece) :
    (ofSteps (.root :: (init ++ [s]))).parent? = some (ofSteps (.root :: init)) := by
  have hs : s.IsPiece := h s (by simp)
  have hpieces : (ofSteps (.root :: (init ++ [s]))).pieces =
      [] :: init.map (·.text.toList) ++ [s.text.toList] := by
    rw [pieces_ofSteps_root h (by simp), List.map_append]
    rfl
  rw [parent?_of_pieces hpieces (by rw [hs.1]; rfl),
    dropIdleEnd_map fun t ht => h t (List.mem_append_left [s] ht), ofPieces_nil_cons_map]

/-- **The parent of a normal path is normal.** -/
theorem Normal.of_parent? (h : p.Normal) (hdir : p.parent? = some dir) : dir.Normal := by
  have hstack := p.isStack_foldl_push_steps
  have hp : p = ofSteps (p.steps.foldl Step.push []).reverse :=
    h.eq_ofSteps.trans (congrArg ofSteps h.steps_eq.symm)
  generalize p.steps.foldl Step.push [] = stack at hstack hp
  cases hstack with
  | nil => simp [hp, show (ofSteps []).parent? = none from rfl] at hdir
  | bottom => simp [hp, show (ofSteps [.root]).parent? = none from rfl] at hdir
  | @push s stack hs hstack _ =>
    rw [List.reverse_cons] at hp
    -- the parent is the rest of the stack, which is a stack as well
    have hparent : p.parent? = some (ofSteps stack.reverse) := by
      obtain ⟨pieces, hpieces, he | he⟩ := hstack.exists_pieces
      · rw [hp, he, parent?_ofSteps]
        simpa [or_imp, forall_and] using ⟨hpieces, hs⟩
      · rw [hp, he, List.cons_append, parent?_ofSteps_root]
        simpa [or_imp, forall_and] using ⟨hpieces, hs⟩
    obtain rfl : ofSteps stack.reverse = dir := by simpa [hparent] using hdir
    have hsteps := steps_ofSteps_reverse hstack
    refine ⟨?_, by rw [hsteps]⟩
    rw [hsteps, Step.normalize, hstack.foldl_push_reverse]

end Path

end LuaBundle
