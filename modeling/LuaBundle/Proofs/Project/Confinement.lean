import LuaBundle.Proofs.Path.Below
import LuaBundle.Proofs.Path.Parents
import LuaBundle.Proofs.Project.Failure
import LuaBundle.Proofs.Project.Reads
import LuaBundle.Settings.Reading

/-!
# Imports stay inside the project directory

Whatever the files of a project require, and by whatever names, it is looked for below the directory
of the entry file.  Of the settings, only the extension has a say in this, and `Settings.validate`
refuses the extensions with which it would fail.

* `Project.liesBelow_target` — the target of an import lies below the base directory;
* `Project.reads_stay_below` — so a walk reads the entry and what lies below its directory, and the
  rest of the file system does not matter.
-/

set_option autoImplicit false

namespace LuaBundle

namespace Settings

variable {settings : Settings}

theorem isUsableExtension_of_validate
    (h : settings.validate ≠ .error (.extension settings.extension)) :
    isUsableExtension settings.bareExtension := by
  by_contra hunusable
  exact h (by rw [validate, if_pos (by simpa using hunusable)])

theorem not_mem_slash_of_isUsableExtension {bare : String} (h : isUsableExtension bare) :
    '/' ∉ bare.toList := by
  intro hmem
  simp only [isUsableExtension, Bool.and_eq_true, List.all_eq_true] at h
  simpa using h.2 _ hmem

/-- What is left of an extension without its leading dots is nothing, or more than dots. -/
theorem exists_ne_dot_of_isUsableExtension (h : isUsableExtension settings.bareExtension) :
    ∃ c ∈ settings.bareExtension.toList, c ≠ '.' := by
  have hne : settings.bareExtension.toList ≠ [] := by
    intro hnil
    simp [isUsableExtension, String.toList_eq_nil_iff.1 hnil] at h
  refine ⟨_, List.head_mem hne, ?_⟩
  rw [bareExtension, String.toList_ofList] at hne
  simpa [bareExtension] using List.head_dropWhile_not (· == '.') hne

end Settings

namespace Project

variable {files : FileSystem} {settings : Settings}

theorem normal_base {start : Path} (h : start.Normal) :
    (scope files settings start).base.Normal := by
  unfold scope
  cases hdir : start.parent? with
  | none => exact Path.normal_normalize ⟨""⟩
  | some dir => exact h.of_parent? hdir

/-- The target of an import lies below the base directory. -/
theorem liesBelow_target (h : Settings.isUsableExtension settings.bareExtension) {start : Path}
    (hs : start.Normal) (name : String) :
    ((scope files settings start).target name).LiesBelow (scope files settings start).base := by
  have hbelow := Path.liesBelow_importPath (Settings.not_mem_slash_of_isUsableExtension h)
    (Settings.exists_ne_dot_of_isUsableExtension h) (scope files settings start).base name
  rwa [(normal_base hs).normalize_eq] at hbelow

/-- **Imports stay below the base directory**, for every extension that is not refused: the target
of a name takes the steps of the base directory and then some names.  So of all paths, the entry and
what lies below its directory are the only ones that a walk reads, and all else that may be in the
file system has no influence on the project. -/
theorem reads_stay_below (settings : Settings)
    (h : settings.validate ≠ .error (.extension settings.extension)) :
    (∀ (base : Path) (name : String),
      (importPath base name settings.bareExtension).LiesBelow base.normalize) ∧
    ∀ (files : FileSystem) (entry : Path),
      let start := entry.normalize
      let base := (scope files settings start).base
      (∀ p ∈ (walk files settings start).1.entered, p = start ∨ p.LiesBelow base) ∧
        ∀ files' : FileSystem, files'.has start = files.has start →
          files'.isFile start = files.isFile start →
          (∀ p, p = start ∨ p.LiesBelow base → files'.read p = files.read p) →
          resolve files' settings entry = resolve files settings entry := by
  have hext := Settings.isUsableExtension_of_validate h
  refine ⟨fun base name => ?_, fun files entry => ?_⟩
  · exact Path.liesBelow_importPath (Settings.not_mem_slash_of_isUsableExtension hext)
      (Settings.exists_ne_dot_of_isUsableExtension hext) base name
  · have hstart := Path.normal_normalize entry
    have hentered : ∀ p ∈ (walk files settings entry.normalize).1.entered,
        p = entry.normalize ∨ p.LiesBelow (scope files settings entry.normalize).base := by
      refine (visits_walk files settings _).entered_of_closed (fun p _ q hq => .inr ?_)
        (fun v hv => .inl (by rw [List.mem_singleton.1 hv])) (by simp)
      obtain ⟨_, _, call, _, rfl⟩ := Scope.calls_iff.1 hq
      exact liesBelow_target hext hstart call.name
    exact ⟨hentered, fun files' hhas hfile hread =>
      resolve_congr hhas hfile fun p hp => hread p (hentered p hp)⟩

/-- A name that climbs to the root does not leave the directory, and a file outside of it that must
not be read does not disturb. -/
theorem reads_stay_below_pair :
    (importPath ⟨"../x"⟩ "/../../etc/passwd" "lua..").text = "../x/etc/passwd.lua.." ∧
      (importPath ⟨"../x"⟩ "/../../etc/passwd" "lua..").LiesBelow ⟨"../x"⟩ ∧
      (resolve (Pair.files.withErrors [(⟨"/etc/passwd"⟩, ⟨.permissionDenied, "denied"⟩)])
        { extension := "..lua" } Pair.entry) =
      resolve Pair.files { extension := "..lua" } Pair.entry := by
  have hname := (reads_stay_below { extension := ".lua.." } (by decide +kernel)).1 ⟨"../x"⟩
    "/../../etc/passwd"
  have hbare : ({ extension := ".lua.." } : Settings).bareExtension = "lua.." := by decide +kernel
  have hnormal : (⟨"../x"⟩ : Path).normalize = ⟨"../x"⟩ := by decide +kernel
  rw [hbare, hnormal] at hname
  refine ⟨by decide +kernel, hname, ?_⟩
  have hpair :=
    (reads_stay_below { extension := "..lua" } (by decide +kernel)).2 Pair.files Pair.entry
  refine hpair.2 _ rfl rfl fun p hp => ?_
  have hbase : (scope Pair.files { extension := "..lua" } Pair.entry.normalize).base = ⟨""⟩ := by
    decide +kernel
  have hsteps : (⟨"/etc/passwd"⟩ : Path).steps = [.root, .name "etc", .name "passwd"] := by
    decide +kernel
  have hapart : ¬ (⟨"/etc/passwd"⟩ : Path) ≈ p := by
    rw [Path.equiv_iff, hsteps]
    rcases hp with rfl | ⟨names, -, -, hnames⟩
    · decide +kernel
    · rw [hnames, hbase]
      cases names <;> simp [show (⟨""⟩ : Path).steps = [] by decide +kernel]
  exact FileSystem.read_withErrors_of_apart fun e he => List.mem_singleton.1 he ▸ hapart

end Project

end LuaBundle
