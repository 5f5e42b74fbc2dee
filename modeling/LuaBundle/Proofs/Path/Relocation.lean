import LuaBundle.Proofs.Path.Below
import LuaBundle.Proofs.Path.Parents

/-!
# Moving paths to another directory

What lies below a directory can be found by its names below another one.  On normal paths this is a
renaming: it keeps apart what is apart, and import names follow it.

* `Normal.child` — the child of a normal path is normal, and `Normal.parent?_child` is the way back;
* `relocate_foldl_child` — a path moves with all of its names;
* `relocate_importPath` — an import from the one directory moves to the import from the other;
* `isRenaming_relocate` — different places stay different.
-/

set_option autoImplicit false

namespace LuaBundle

namespace Path

variable {b b' p q : Path} {n : String} {names : List String}

/-! ## Children of normal paths -/

/-- A name at the end of some joined texts. -/
theorem intercalate_concat_name {texts : List String} (h : texts ≠ []) (n : String) :
    "/".intercalate (texts ++ [n]) = "/".intercalate texts ++ "/" ++ n := by
  rw [String.intercalate_append_of_ne_nil h (List.cons_ne_nil n []), String.intercalate_singleton]

/-- Joined pieces do not end in a slash. -/
theorem exists_getLast?_intercalate {steps : List Step} (h : ∀ s ∈ steps, s.IsPiece)
    (hne : steps ≠ []) :
    ∃ c, ("/".intercalate (steps.map Step.text)).toList.getLast? = some c ∧ c ≠ '/' := by
  obtain ⟨init, s, rfl⟩ := (List.eq_nil_or_concat steps).resolve_left hne
  have hs : s.IsPiece := h s (by simp)
  have hlast : s.text.toList ≠ [] := fun hnil => by simp [Step.IsPiece, hnil, Step.ofPiece?] at hs
  obtain ⟨c, hc⟩ : ∃ c, s.text.toList.getLast? = some c :=
    ⟨_, List.getLast?_eq_some_getLast hlast⟩
  refine ⟨c, ?_, fun he => hs.2 (he ▸ List.mem_of_getLast? hc)⟩
  rw [List.concat_eq_append, List.map_append, List.map_singleton]
  cases init with
  | nil => simpa using hc
  | cons first init =>
    rw [intercalate_concat_name (by simp), String.toList_append, List.getLast?_append, hc]
    rfl

theorem child_of_getLast? {text : String} {c : Char} (h : text.toList.getLast? = some c)
    (hc : c ≠ '/') (n : String) : child ⟨text⟩ n = ⟨text ++ "/" ++ n⟩ := by
  rw [child, if_neg (by simpa [h] using hc)]

/-- A child in canonical spelling. -/
theorem child_ofSteps {steps : List Step} (h : ∀ s ∈ steps, s.IsPiece) (n : String) :
    (ofSteps steps).child n = ⟨"/".intercalate (steps.map Step.text ++ [n])⟩ := by
  rw [ofSteps_eq h]
  by_cases hnil : steps = []
  · subst hnil
    rfl
  · obtain ⟨c, hlast, hc⟩ := exists_getLast?_intercalate h hnil
    rw [child_of_getLast? hlast hc, intercalate_concat_name (by simpa)]

/-- A child in canonical spelling, below the root. -/
theorem child_ofSteps_root {steps : List Step} (h : ∀ s ∈ steps, s.IsPiece) (n : String) :
    (ofSteps (.root :: steps)).child n = ⟨"/" ++ "/".intercalate (steps.map Step.text ++ [n])⟩ := by
  rw [ofSteps]
  by_cases hnil : steps = []
  · subst hnil
    rfl
  · obtain ⟨c, hlast, hc⟩ := exists_getLast?_intercalate h hnil
    have hlast' : ("/" ++ "/".intercalate (steps.map Step.text)).toList.getLast? = some c := by
      rw [String.toList_append, List.getLast?_append, hlast]
      rfl
    rw [child_of_getLast? hlast' hc, intercalate_concat_name (by simpa), String.append_assoc,
      String.append_assoc, String.append_assoc]

/-- The steps of a normal path: pieces, perhaps below the root. -/
theorem Normal.exists_pieces (hb : b.Normal) :
    ∃ pieces : List Step, (∀ s ∈ pieces, s.IsPiece) ∧
      (b.steps = pieces ∨ b.steps = .root :: pieces) := by
  obtain ⟨pieces, hpieces, he⟩ := b.isStack_foldl_push_steps.exists_pieces
  have hsteps : (b.steps.foldl Step.push []).reverse = b.steps := hb.steps_eq
  exact ⟨pieces, hpieces, hsteps ▸ he⟩

/-- A child of a normal path is in canonical spelling. -/
theorem Normal.child_eq (hb : b.Normal) (hn : IsFileName n) :
    b.child n = ofSteps (b.steps ++ [.name n]) := by
  obtain ⟨pieces, hpieces, he | he⟩ := hb.exists_pieces
  · have hchild : ∀ s ∈ pieces ++ [.name n], s.IsPiece := by
      simpa [or_imp, forall_and] using ⟨hpieces, Step.isPiece_name hn⟩
    conv_lhs => rw [hb.eq_ofSteps]
    rw [he, child_ofSteps hpieces, ofSteps_eq hchild, List.map_append]
    rfl
  · conv_lhs => rw [hb.eq_ofSteps]
    rw [he, child_ofSteps_root hpieces, List.cons_append, ofSteps, List.map_append]
    rfl

/-- **The child of a normal path is normal.** -/
theorem Normal.child (hb : b.Normal) (hn : IsFileName n) : (b.child n).Normal where
  steps_eq := by
    have hnormal := Step.normalize_append_names b.steps [n]
    rw [steps_child b hn]
    rw [hb.steps_eq] at hnormal
    exact hnormal
  eq_ofSteps := by rw [steps_child b hn, hb.child_eq hn]

theorem Normal.foldl_child (hb : b.Normal) (hnames : ∀ n ∈ names, IsFileName n) :
    (names.foldl Path.child b).Normal := by
  induction names generalizing b with
  | nil => exact hb
  | cons n names ih =>
    obtain ⟨hn, hnames⟩ := List.forall_mem_cons.1 hnames
    exact ih (hb.child hn) hnames

theorem Normal.parent?_child (hb : b.Normal) (hn : IsFileName n) :
    (b.child n).parent? = some b := by
  rw [hb.child_eq hn]
  conv_rhs => rw [hb.eq_ofSteps]
  obtain ⟨pieces, hpieces, he | he⟩ := hb.exists_pieces
  all_goals
    have hchild : ∀ s ∈ pieces ++ [.name n], s.IsPiece := by
      simpa [or_imp, forall_and] using ⟨hpieces, Step.isPiece_name hn⟩
    rw [he]
  · exact parent?_ofSteps hchild
  · exact parent?_ofSteps_root hchild

theorem fileName?_child (b : Path) (hn : IsFileName n) : (b.child n).fileName? = some n := by
  rw [fileName?, steps_child b hn, List.getLast?_concat]

/-- The stem of a file does not depend on its directory. -/
theorem stem_child (b b' : Path) (hn : IsFileName n) : (b.child n).stem = (b'.child n).stem := by
  rw [stem, stem, fileName?_child b hn, fileName?_child b' hn]

/-! ## Moving -/

/-- A path is reached from a directory by one or more names, each in canonical spelling. -/
def IsInside (p dir : Path) : Prop :=
  ∃ names : List String, names ≠ [] ∧ (∀ n ∈ names, IsFileName n) ∧ names.foldl child dir = p

/-- Where the rest of a path leads from another directory. -/
def relocate (b b' p : Path) : Path :=
  ofSteps (b'.steps ++ p.steps.drop b.steps.length)

/-- **A path moves with all of its names.** -/
theorem relocate_foldl_child (b : Path) (hb' : b'.Normal) (hnames : ∀ n ∈ names, IsFileName n) :
    relocate b b' (names.foldl child b) = names.foldl child b' := by
  rw [relocate, steps_foldl_child hnames, List.drop_left, ← steps_foldl_child hnames b']
  exact (hb'.foldl_child hnames).eq_ofSteps.symm

theorem relocate_child (b : Path) (hb' : b'.Normal) (hn : IsFileName n) :
    relocate b b' (b.child n) = b'.child n := by
  have hmove := relocate_foldl_child b hb' (List.forall_mem_singleton.2 hn)
  rwa [List.foldl_cons, List.foldl_cons, List.foldl_nil, List.foldl_nil] at hmove

theorem isInside_child (b : Path) (hn : IsFileName n) : (b.child n).IsInside b :=
  ⟨[n], by simp, fun _ hm => List.mem_singleton.1 hm ▸ hn, rfl⟩

/-- Inside of a directory is what lies below it and is normal. -/
theorem LiesBelow.isInside (h : p.LiesBelow b) (hp : p.Normal) (hb : b.Normal) : p.IsInside b := by
  obtain ⟨names, hne, hnames, hsteps⟩ := h
  refine ⟨names, hne, hnames, (hb.foldl_child hnames).eq_of_equiv hp ?_⟩
  rw [equiv_iff, steps_foldl_child hnames, hsteps]

/-- A map of paths that, on some normal ones, keeps different places apart. -/
structure IsRenaming (f : Path → Path) (P : Path → Prop) : Prop where
  normal {p : Path} (hp : P p) : p.Normal
  equiv_iff {p q : Path} (hp : P p) (hq : P q) : f p ≈ f q ↔ p ≈ q

theorem IsRenaming.eq_of_eq {f : Path → Path} {P : Path → Prop} (h : IsRenaming f P) (hp : P p)
    (hq : P q) (he : f p = f q) : p = q :=
  (h.normal hp).eq_of_equiv (h.normal hq) ((h.equiv_iff hp hq).1 (equiv_of_eq he))

theorem IsRenaming.steps_beq {f : Path → Path} {P : Path → Prop} (h : IsRenaming f P) (hp : P p)
    (hq : P q) : ((f p).steps == (f q).steps) = (p.steps == q.steps) := by
  rw [Bool.eq_iff_iff, beq_iff_eq, beq_iff_eq]
  exact h.equiv_iff hp hq

/-- **To move to another directory is a renaming.** -/
theorem isRenaming_relocate (hb : b.Normal) (hb' : b'.Normal) :
    IsRenaming (relocate b b') (IsInside · b) where
  normal := by
    rintro _ ⟨names, _, hnames, rfl⟩
    exact hb.foldl_child hnames
  equiv_iff := by
    rintro _ _ ⟨names, _, hnames, rfl⟩ ⟨names', _, hnames', rfl⟩
    rw [relocate_foldl_child b hb' hnames, relocate_foldl_child b hb' hnames', equiv_iff,
      equiv_iff, steps_foldl_child hnames, steps_foldl_child hnames', steps_foldl_child hnames,
      steps_foldl_child hnames', List.append_right_inj, List.append_right_inj]

section Import

variable {extension : String}

theorem isInside_importPath (hslash : '/' ∉ extension.toList)
    (hdot : ∃ c ∈ extension.toList, c ≠ '.') (hb : b.Normal) (name : String) :
    (importPath b name extension).IsInside b := by
  have hbelow := liesBelow_importPath hslash hdot b name
  rw [hb.normalize_eq] at hbelow
  exact hbelow.isInside (normal_importPath b name extension) hb

/-- **Imports move with their directory.** -/
theorem relocate_importPath (hslash : '/' ∉ extension.toList)
    (hdot : ∃ c ∈ extension.toList, c ≠ '.') (hb : b.Normal) (hb' : b'.Normal) (name : String) :
    relocate b b' (importPath b name extension) = importPath b' name extension := by
  have hsteps := steps_importPath hslash hdot b name
  have hsteps' := steps_importPath hslash hdot b' name
  rw [hb.normalize_eq] at hsteps
  rw [hb'.normalize_eq] at hsteps'
  rw [relocate, hsteps, List.drop_left, ← hsteps']
  exact (normal_importPath b' name extension).eq_ofSteps.symm

end Import

end Path

end LuaBundle
