import LuaBundle.Proofs.Path.Children

/-!
# Paths below a directory

An import name, whatever it is made of, stands for a path that goes down from the base directory.

* `isFileName_of_mem_importPieces` — the dots of an import name are slashes before it is cut, and
  the extension of a file is more than dots, so no piece is `.` or `..`;
* `steps_importPath` and `liesBelow_importPath` — so an import leads down, by its pieces.
-/

set_option autoImplicit false

namespace LuaBundle

namespace Text

/-- What is no separator is in some piece. -/
theorem exists_mem_segments {sep : Char → Bool} {cs : List Char} {c : Char} (h : c ∈ cs)
    (hc : sep c = false) : ∃ piece ∈ segments sep cs, c ∈ piece := by
  induction cs with
  | nil => simp at h
  | cons d cs ih =>
    by_cases hd : sep d
    · have hcd : c ≠ d := fun he => by simp [he, hd] at hc
      obtain ⟨piece, hpiece, hmem⟩ := ih ((List.mem_cons.1 h).resolve_left hcd)
      exact ⟨piece, by simp [segments, hd, hpiece], hmem⟩
    · obtain ⟨first, rest, hs⟩ := List.exists_cons_of_ne_nil (segments_ne_nil sep cs)
      rw [segments_cons_of_neg (by simpa using hd) hs]
      rcases List.mem_cons.1 h with rfl | h
      · exact ⟨_, List.mem_cons_self, List.mem_cons_self⟩
      · obtain ⟨piece, hpiece, hmem⟩ := ih h
        rcases List.mem_cons.1 (hs ▸ hpiece) with rfl | hpiece
        · exact ⟨_, List.mem_cons_self, List.mem_cons_of_mem _ hmem⟩
        · exact ⟨piece, List.mem_cons_of_mem _ hpiece, hmem⟩

end Text

namespace Path

/-! ## Imports -/

/-- A path lies below a directory if it takes the directory's steps and then at least one more, each
of them to a name. -/
def LiesBelow (p dir : Path) : Prop :=
  ∃ names : List String, names ≠ [] ∧ (∀ n ∈ names, IsFileName n) ∧
    p.steps = dir.steps ++ names.map .name

/-- Where a text without dots comes before one that has no slash and is more than dots, no piece
that is not empty consists of dots. -/
theorem exists_ne_dot_of_mem_segments {cs tail piece : List Char} (hcs : '.' ∉ cs)
    (hslash : '/' ∉ tail) (hdot : ∃ c ∈ tail, c ≠ '.')
    (h : piece ∈ Text.segments (· == '/') (cs ++ tail)) : piece = [] ∨ ∃ c ∈ piece, c ≠ '.' := by
  induction cs generalizing piece with
  | nil =>
    rw [List.nil_append, Text.segments_eq_singleton hslash, List.mem_singleton] at h
    exact .inr (h ▸ hdot)
  | cons c cs ih =>
    obtain ⟨hc, hcs⟩ : '.' ≠ c ∧ '.' ∉ cs := by simpa using hcs
    by_cases hsep : c = '/'
    · rw [List.cons_append, hsep, Text.segments, if_pos (by simp), List.mem_cons] at h
      exact h.elim .inl (ih hcs)
    · obtain ⟨first, rest, hseg⟩ :=
        List.exists_cons_of_ne_nil (Text.segments_ne_nil (· == '/') (cs ++ tail))
      rw [List.cons_append, Text.segments_cons_of_neg (by simpa using hsep) hseg,
        List.mem_cons] at h
      rcases h with rfl | h
      · exact .inr ⟨c, List.mem_cons_self, hc.symm⟩
      · exact ih hcs (hseg ▸ List.mem_cons_of_mem _ h)

section Import

variable {extension : String}

/-- **No piece of an import is `.` or `..`**, for an extension that has no slash and is more than
dots. -/
theorem isFileName_of_mem_importPieces (hslash : '/' ∉ extension.toList)
    (hdot : ∃ c ∈ extension.toList, c ≠ '.') {name n : String}
    (h : n ∈ (importPieces name extension).map String.ofList) : IsFileName n := by
  obtain ⟨piece, hmem, rfl⟩ := List.mem_map.1 h
  obtain ⟨hpiece, hne⟩ := List.mem_filter.1 hmem
  have hdots : '.' ∉ name.toList.map (fun c => if c = '.' then '/' else c) := by
    simp only [List.mem_map, not_exists, not_and]
    intro c _
    split <;> simp_all
  have htail : ∃ c ∈ '.' :: extension.toList, c ≠ '.' := by simpa using hdot
  obtain ⟨c, hc, hcdot⟩ := (exists_ne_dot_of_mem_segments hdots (by simpa using hslash) htail
    hpiece).resolve_left (by simpa using hne)
  have hmemText : ∀ text : String, String.ofList piece = text → c ∈ text.toList := by
    rintro _ rfl
    simpa using hc
  refine ⟨fun he => ?_, fun he => ?_, fun he => ?_, ?_⟩
  · simpa using hmemText _ he
  · simpa [hcdot] using hmemText _ he
  · simpa [hcdot] using hmemText _ he
  · rw [String.toList_ofList]
    exact fun hs => by simpa using Text.not_mem_of_mem_segments hpiece _ hs

theorem importPieces_ne_nil (name extension : String) : importPieces name extension ≠ [] := by
  intro hnil
  have hdot : '.' ∈ name.toList.map (fun c => if c = '.' then '/' else c) ++
      '.' :: extension.toList := by simp
  obtain ⟨piece, hpiece, hmem⟩ := @Text.exists_mem_segments (· == '/') _ _ hdot (by decide)
  have hempty := List.filter_eq_nil_iff.1 hnil piece hpiece
  simp [List.ne_nil_of_mem hmem] at hempty

/-- **Where an import name leads**: down from the base directory, by its pieces. -/
theorem steps_importPath (hslash : '/' ∉ extension.toList) (hdot : ∃ c ∈ extension.toList, c ≠ '.')
    (base : Path) (name : String) :
    (importPath base name extension).steps =
      base.normalize.steps ++ ((importPieces name extension).map String.ofList).map .name := by
  rw [importPath, steps_normalize, steps_normalize, ← Step.normalize_append_names,
    ← steps_foldl_child fun n hn => isFileName_of_mem_importPieces hslash hdot hn, List.foldl_map]

/-- **Imports stay below the base directory.** -/
theorem liesBelow_importPath (hslash : '/' ∉ extension.toList)
    (hdot : ∃ c ∈ extension.toList, c ≠ '.') (base : Path) (name : String) :
    (importPath base name extension).LiesBelow base.normalize :=
  ⟨_, by simpa using importPieces_ne_nil name extension,
    fun _ hn => isFileName_of_mem_importPieces hslash hdot hn,
    steps_importPath hslash hdot base name⟩

end Import

end Path

end LuaBundle
