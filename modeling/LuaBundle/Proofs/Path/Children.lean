import LuaBundle.Proofs.Path.Normal

/-!
# Children

`Path.child` works on the text of a path.  On its steps it adds a name at the end.

* `moves_child` — what becomes of the pieces of a directory's path;
* `steps_child` and `steps_foldl_child` — a child is one name further, and the child of a child is
  two.
-/

set_option autoImplicit false

namespace LuaBundle

namespace Text

theorem segments_append_cons {sep : Char → Bool} {c : Char} (hc : sep c) (cs ds : List Char) :
    segments sep (cs ++ c :: ds) = segments sep cs ++ segments sep ds := by
  simp only [segments_eq_splitOnP, List.splitOnP_append_cons _ _ hc]

theorem segments_eq_singleton {sep : Char} {cs : List Char} (h : sep ∉ cs) :
    segments (· == sep) cs = [cs] := by
  rw [segments_eq_splitOnP, List.splitOnP_eq_singleton]
  rintro c hc
  simpa using fun he : c = sep => h (he ▸ hc)

end Text

/-- A text that can stand between two slashes as the name of a file or directory. -/
structure IsFileName (n : String) : Prop where
  ne_empty : n ≠ ""
  ne_here : n ≠ "."
  ne_up : n ≠ ".."
  not_mem_slash : '/' ∉ n.toList

namespace Step

theorem isPiece_name {n : String} (h : IsFileName n) : (name n).IsPiece := by
  refine ⟨?_, h.not_mem_slash⟩
  have hlist : ∀ cs : List Char, n ≠ String.ofList cs → n.toList ≠ cs := fun cs hne he =>
    hne (by rw [← he, String.ofList_toList])
  rw [text, ofPiece?, String.ofList_toList]
  · exact hlist [] h.ne_empty
  · exact hlist ['.'] h.ne_here
  · exact hlist ['.', '.'] h.ne_up

theorem ofFirstPiece?_of_ne_nil {cs : List Char} (h : cs ≠ []) (more : Bool) :
    Step.ofFirstPiece? more cs = Step.ofFirstPiece? true cs := by
  by_cases hdot : cs = ['.']
  · rw [hdot]
    rfl
  · rw [Step.ofFirstPiece?, Step.ofFirstPiece?] <;> assumption

theorem normalize_append_names (steps : List Step) (names : List String) :
    normalize (steps ++ names.map name) = normalize steps ++ names.map name := by
  have hpush : ∀ stack : List Step,
      (names.map name).foldl push stack = (names.map name).reverse ++ stack := by
    induction names with
    | nil => simp
    | cons n names ih => simp [push, ih]
  rw [normalize, List.foldl_append, hpush, List.reverse_append, List.reverse_reverse, normalize]

end Step

namespace Path

variable {p dir base : Path} {n : String}

theorem moves_of_pieces {first last : List Char} {rest : List (List Char)}
    (h : p.pieces = first :: rest ++ [last]) :
    p.moves =
      (Step.ofFirstPiece? true first :: rest.map Step.ofPiece?) ++ [Step.ofPiece? last] := by
  have hne : (rest ++ [last]).isEmpty = false := by simp
  have hmoves : p.moves = Step.ofFirstPiece? (!(rest ++ [last]).isEmpty) first ::
      (rest ++ [last]).map Step.ofPiece? := by rw [moves, h]; rfl
  rw [hmoves, hne, List.map_append]
  rfl

/-- What follows a directory's last slash is nothing or its last piece; a text is put in the place
of nothing, or after the last piece and one more slash. -/
theorem pieces_child (dir : Path) (text : String) :
    (dir.text = "" ∧ dir.child text = ⟨text⟩) ∨
      ∃ first rest, (dir.child text).pieces = first :: rest ++ pieces ⟨text⟩ ∧
        (dir.pieces = first :: rest ++ [[]] ∨
          dir.pieces = first :: rest ∧ (rest = [] → first ≠ [])) := by
  rcases List.eq_nil_or_concat dir.text.toList with hnil | ⟨cs, c, hlast⟩
  · have hempty : dir.text = "" := String.toList_eq_nil_iff.1 hnil
    exact .inl ⟨hempty, by simp [child, hempty]⟩
  by_cases hc : c = '/'
  · obtain ⟨first, rest, hcs⟩ := List.exists_cons_of_ne_nil (Text.segments_ne_nil (· == '/') cs)
    refine .inr ⟨first, rest, ?_, .inl ?_⟩
    · rw [pieces, child, if_pos (by simp [hlast, hc]), String.toList_append, hlast, hc]
      simp [Text.segments_append_cons, hcs, pieces]
    · rw [pieces, hlast, hc, List.concat_eq_append, Text.segments_append_cons (by simp), hcs]
      rfl
  · obtain ⟨first, rest, hcs⟩ :=
      List.exists_cons_of_ne_nil (Text.segments_ne_nil (· == '/') dir.text.toList)
    refine .inr ⟨first, rest, ?_, .inr ⟨hcs, ?_⟩⟩
    · rw [pieces, child, if_neg (by simp [hlast, hc])]
      simp [Text.segments_append_cons, hcs, pieces]
    · rintro rfl
      have hfirst : first = dir.text.toList := by
        simpa [hcs, List.intercalate] using Text.intercalate_segments '/' dir.text.toList
      simp [hfirst, hlast]

theorem moves_child (dir : Path) (hn : IsFileName n) :
    ∃ before, before.flatMap Option.toList = dir.steps ∧
      (dir.child n).moves = before ++ [some (.name n)] := by
  have hpiece := Step.isPiece_name hn
  have hlastPiece : Step.ofPiece? n.toList = some (.name n) := hpiece.1
  have hpieces : pieces ⟨n⟩ = [n.toList] := Text.segments_eq_singleton hpiece.2
  obtain ⟨hempty, hchild⟩ | ⟨first, rest, hchild, hdir⟩ := pieces_child dir n
  · refine ⟨[], by simp [steps, moves, pieces, hempty, Text.segments, Step.ofFirstPiece?], ?_⟩
    rw [moves, hchild, hpieces]
    exact congrArg (· :: []) (hpiece.ofFirstPiece? false)
  rw [hpieces] at hchild
  refine ⟨_, ?_, by rw [moves_of_pieces hchild, hlastPiece]⟩
  rcases hdir with hdir | ⟨hdir, hfirst⟩
  · rw [steps, moves_of_pieces hdir, List.flatMap_append]
    exact (List.append_nil _).symm
  · rw [steps, moves, hdir]
    cases rest with
    | cons next rest => rfl
    | nil =>
      -- the only piece is not empty, and only the empty one depends on what follows
      exact congrArg (fun s => [s].flatMap Option.toList)
        (Step.ofFirstPiece?_of_ne_nil (hfirst rfl) _).symm

/-- **A child is one name further.** -/
theorem steps_child (dir : Path) (hn : IsFileName n) :
    (dir.child n).steps = dir.steps ++ [.name n] := by
  obtain ⟨before, hdir, hchild⟩ := moves_child dir hn
  rw [steps, hchild, List.flatMap_append, hdir]
  rfl

theorem steps_foldl_child {names : List String} (hnames : ∀ n ∈ names, IsFileName n) (dir : Path) :
    (names.foldl child dir).steps = dir.steps ++ names.map .name := by
  induction names generalizing dir with
  | nil => simp
  | cons n names ih =>
    obtain ⟨hn, hnames⟩ := List.forall_mem_cons.1 hnames
    rw [List.foldl_cons, ih hnames, steps_child dir hn, List.append_assoc]
    rfl

end Path

end LuaBundle
