import LuaBundle.Proofs.Project.Confinement

/-!
# Names of one file

An import name is cut at its dots and slashes.  What stands before the last cut names folders, one
for each piece that is not empty; what stands behind it is completed by the extension to the name of
the file.

* `importPieces_eq` — so a file's path is made of these folders and this last piece;
* `Project.importPath_eq_iff` — two names are aliases if they agree in both, and only then.
-/

set_option autoImplicit false

namespace LuaBundle

/-- The pieces of an import name between its dots and slashes. -/
def nameSegments (name : String) : List (List Char) :=
  name.toList.splitOnP (fun c => c == '.' || c == '/')

/-- The folders that an import name goes through: all pieces but the last one, without the empty
ones. -/
def folders (name : String) : List (List Char) :=
  (nameSegments name).dropLast.filter (!·.isEmpty)

namespace Text

/-- Separators may be written alike before a text is cut. -/
theorem segments_map {sep sep' : Char → Bool} {f : Char → Char} (hsep : ∀ c, sep' (f c) = sep c)
    (hself : ∀ c, sep c = false → f c = c) (cs : List Char) :
    segments sep' (cs.map f) = segments sep cs := by
  induction cs with
  | nil => rfl
  | cons c cs ih =>
    rw [List.map_cons, segments, segments, hsep, ih]
    cases hc : sep c with
    | true => rfl
    | false => rw [hself c hc]

/-- A text without separators, put at the end of a text, becomes the end of its last piece. -/
theorem exists_segments_append {sep : Char → Bool} {tail : List Char}
    (htail : segments sep tail = [tail]) (cs : List Char) :
    ∃ front last, segments sep cs = front ++ [last] ∧
      segments sep (cs ++ tail) = front ++ [last ++ tail] := by
  induction cs with
  | nil => exact ⟨[], [], rfl, htail⟩
  | cons c cs ih =>
    obtain ⟨front, last, hcs, happ⟩ := ih
    rw [List.cons_append]
    cases hc : sep c with
    | true => exact ⟨[] :: front, last, by simp [segments, hc, hcs], by simp [segments, hc, happ]⟩
    | false =>
      cases front with
      | nil =>
        exact ⟨[], c :: last, segments_cons_of_neg hc hcs, segments_cons_of_neg hc happ⟩
      | cons first front =>
        exact ⟨(c :: first) :: front, last, segments_cons_of_neg hc hcs,
          segments_cons_of_neg hc happ⟩

end Text

theorem exists_getLast?_nameSegments (name : String) :
    ∃ last, (nameSegments name).getLast? = some last :=
  ⟨_, List.getLast?_eq_some_getLast (List.splitOnP_ne_nil _ _)⟩

section

variable {extension : String} (hslash : '/' ∉ extension.toList)
include hslash

/-- **The pieces of a file's path**: the folders of its import name, and then the last piece of the
name with the extension. -/
theorem importPieces_eq {name : String} {last : List Char}
    (hlast : (nameSegments name).getLast? = some last) :
    importPieces name extension = folders name ++ [last ++ '.' :: extension.toList] := by
  have hsplit : nameSegments name = (nameSegments name).dropLast ++ [last] :=
    (List.dropLast_append_getLast? last hlast).symm
  have hcut : Text.segments (· == '/') (name.toList.map fun c => if c = '.' then '/' else c) =
      (nameSegments name).dropLast ++ [last] := by
    rw [← hsplit, nameSegments, ← Text.segments_eq_splitOnP]
    refine Text.segments_map (fun c => ?_) (fun c hc => ?_) name.toList
    · by_cases hc : c = '.' <;> simp [hc]
    · exact if_neg fun hdot => by simp [hdot] at hc
  have htail : Text.segments (· == '/') ('.' :: extension.toList) = ['.' :: extension.toList] :=
    Text.segments_eq_singleton (by simpa using hslash)
  obtain ⟨front, last', hfront, happ⟩ := Text.exists_segments_append htail
    (name.toList.map fun c => if c = '.' then '/' else c)
  obtain ⟨rfl, hlast'⟩ := List.append_inj' (hcut.symm.trans hfront) rfl
  obtain rfl := List.singleton_inj.1 hlast'
  dsimp only [importPieces]
  rw [happ, List.filter_append]
  simp [folders]

/-- Two imports lead to one file if they go down by the same pieces. -/
theorem importPath_equiv_iff (hdot : ∃ c ∈ extension.toList, c ≠ '.') {base : Path}
    {m n : String} : importPath base m extension ≈ importPath base n extension ↔
      importPieces m extension = importPieces n extension := by
  rw [Path.equiv_iff, Path.steps_importPath hslash hdot, Path.steps_importPath hslash hdot,
    List.append_right_inj]
  have hname : Function.Injective Step.name := fun _ _ => Step.name.inj
  have hpiece : Function.Injective String.ofList := fun _ _ he => String.ofList_inj.1 he
  rw [hname.list_map.eq_iff, hpiece.list_map.eq_iff]

end

namespace Project

/-- **Which names are aliases.**  Two import names stand for one file, in every directory, if they
agree in the folders they go through and in their last piece, and only then.  Nothing else about the
way a name is written matters: which of its separators are dots, and which are doubled or lead. -/
theorem importPath_eq_iff (settings : Settings)
    (h : settings.validate ≠ .error (.extension settings.extension)) (base : Path)
    (m n : String) :
    (importPath base m settings.bareExtension ≈ importPath base n settings.bareExtension ↔
      importPath base m settings.bareExtension = importPath base n settings.bareExtension) ∧
    (importPath base m settings.bareExtension = importPath base n settings.bareExtension ↔
      (nameSegments m).getLast? = (nameSegments n).getLast? ∧ folders m = folders n) := by
  have hext := Settings.isUsableExtension_of_validate h
  have hslash := Settings.not_mem_slash_of_isUsableExtension hext
  have hdot := Settings.exists_ne_dot_of_isUsableExtension hext
  have hequiv := (Path.normal_importPath base m settings.bareExtension).equiv_iff_eq
    (Path.normal_importPath base n settings.bareExtension)
  refine ⟨hequiv, ?_⟩
  obtain ⟨last, hm⟩ := exists_getLast?_nameSegments m
  obtain ⟨last', hn⟩ := exists_getLast?_nameSegments n
  rw [← hequiv, importPath_equiv_iff hslash hdot, importPieces_eq hslash hm,
    importPieces_eq hslash hn, hm, hn]
  constructor
  · intro he
    obtain ⟨hfolders, hlast⟩ := List.append_inj' he rfl
    exact ⟨congrArg some (List.append_cancel_right (List.singleton_inj.1 hlast)), hfolders⟩
  · rintro ⟨hlast, hfolders⟩
    rw [Option.some.inj hlast, hfolders]

/-- A leading `./` and a doubled dot make no difference, but a dot at the end does: with it, the
name stands for a file that is called like the extension. -/
theorem importPath_eq_iff_strings :
    importPath ⟨"../x"⟩ "./lib..strings" "lua" = importPath ⟨"../x"⟩ "lib/strings" "lua" ∧
      importPath ⟨"../x"⟩ "lib.strings" "lua" ≠ importPath ⟨"../x"⟩ "lib.strings." "lua" ∧
      (importPath ⟨"../x"⟩ "lib.strings." "lua").text = "../x/lib/strings/.lua" := by
  have hvalid : ({ extension := "..lua" } : Settings).validate ≠
      .error (.extension "..lua") := by decide +kernel
  have hbare : ({ extension := "..lua" } : Settings).bareExtension = "lua" := by decide +kernel
  have hspellings := (importPath_eq_iff _ hvalid ⟨"../x"⟩ "./lib..strings" "lib/strings").2
  have hdot := (importPath_eq_iff _ hvalid ⟨"../x"⟩ "lib.strings" "lib.strings.").2
  rw [hbare] at hspellings hdot
  refine ⟨hspellings.2 (by decide +kernel), fun he => ?_, by decide +kernel⟩
  exact absurd (hdot.1 he) (by decide +kernel)

end Project

end LuaBundle
