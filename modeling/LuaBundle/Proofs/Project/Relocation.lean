import LuaBundle.Proofs.Bundle.Renaming
import LuaBundle.Proofs.Project.Confinement
import LuaBundle.Proofs.Project.Renaming

/-!
# The same project in another directory

Import names start from the directory of the entry file, and never leave it.  So if the same files
lie below another directory, then the same project is found there, and its bundle has the same text.

* `Project.isRenamed_scope` — imports from two directories in which the same files lie;
* `Run.rename` — what a run makes, at other paths;
* `Run.ofEntry_relocate` — the runs from an entry file in either directory.
-/

set_option autoImplicit false

namespace LuaBundle

variable {files files' : FileSystem} {settings : Settings} {b b' : Path} {n : String}

namespace Project

theorem scope_child (hb : b.Normal) (hn : IsFileName n) :
    scope files settings (b.child n) =
      { files, base := b, extension := settings.bareExtension } := by
  rw [scope, hb.parent?_child hn]
  rfl

/-- **Imports from two directories** in which the same files lie. -/
theorem isRenamed_scope (hext : Settings.isUsableExtension settings.bareExtension)
    (hb : b.Normal) (hb' : b'.Normal) (hn : IsFileName n) (hagree : files.AgreesBelow b files' b') :
    Scope.IsRenamed (Path.relocate b b') (Path.IsInside · b) (scope files settings (b.child n))
      (scope files' settings (b'.child n)) := by
  have hslash := Settings.not_mem_slash_of_isUsableExtension hext
  have hdot := Settings.exists_ne_dot_of_isUsableExtension hext
  rw [scope_child hb hn, scope_child hb' hn]
  refine ⟨Path.isRenaming_relocate hb hb', Path.isInside_importPath hslash hdot hb,
    fun name => (Path.relocate_importPath hslash hdot hb hb' name).symm, ?_⟩
  rintro _ ⟨names, hne, hnames, rfl⟩
  rw [Path.relocate_foldl_child b hb' hnames]
  exact (hagree names hne hnames).2.2

section

variable (hext : Settings.isUsableExtension settings.bareExtension)
  (hb : b.Normal) (hb' : b'.Normal) (hn : IsFileName n) (hagree : files.AgreesBelow b files' b')
include hext hb hb' hn hagree

/-- **Projects from two directories** in which the same files lie. -/
theorem toOption_resolve_relocate :
    (resolve files' settings (b'.child n)).result.toOption =
      (resolve files settings (b.child n)).result.toOption.map
        (rename (Path.relocate b b') b') := by
  have hs := isRenamed_scope hext hb hb' hn hagree
  have hbase : (scope files' settings (b'.child n)).base = b' := by rw [scope_child hb' hn]
  obtain ⟨hhas, hfile, _⟩ := hagree [n] (by simp) (by simpa using hn)
  have hnormal' := hb'.child hn
  have hstem := Path.stem_child b' b hn
  have hentry : b'.child n = Path.relocate b b' (b.child n) := (Path.relocate_child b hb' hn).symm
  dsimp only [List.foldl_cons, List.foldl_nil] at hhas hfile
  rw [hentry] at hs hbase hhas hfile hnormal' hstem ⊢
  rw [toOption_resolve_renamed hs (Path.isInside_child b hn) hstem hnormal' hhas hfile, hbase]

/-- The project of an entry file has the file's directory as its base, and its paths are inside. -/
theorem isInside_of_resolve {project : Project}
    (h : (resolve files settings (b.child n)).result = .ok project) :
    project.base = b ∧ project.PathsIn (Path.IsInside · b) := by
  have hs := isRenamed_scope hext hb hb' hn hagree
  have hstem := Path.stem_child b' b hn
  rw [← Path.relocate_child b hb' hn] at hs hstem
  have hproject := pathsIn_of_resolve hs (Path.isInside_child b hn) hstem h
  rwa [scope_child hb hn] at hproject

end

end Project

namespace Run

/-- What a run makes, at other paths. -/
def rename (f : Path → Path) (base' : Path) (r : Run) : Run where
  project := r.project.rename f base'
  bundle := r.bundle.rename f

/-- All paths in what a run makes are of one kind. -/
structure PathsIn (P : Path → Prop) (r : Run) : Prop where
  project : r.project.PathsIn P
  bundle : ∀ record ∈ r.bundle.records, P record.path

theorem toOption_ofEntry {entry : Path} : (ofEntry files settings entry).result.toOption =
    (Project.resolve files settings entry).result.toOption.bind fun project =>
      (Bundle.ofModules settings.bundle project.modules).result.toOption.map (Run.mk project) := by
  refine Option.ext fun run => ?_
  rw [toOption_eq_some_iff, ofEntry_eq_ok_iff, Option.bind_eq_some_iff]
  simp only [toOption_eq_some_iff, Option.map_eq_some_iff]
  constructor
  · rintro ⟨hproject, hbundle⟩
    exact ⟨run.project, hproject, run.bundle, hbundle, rfl⟩
  · rintro ⟨project, hproject, bundle, hbundle, rfl⟩
    exact ⟨hproject, hbundle⟩

/-- **Runs go along with their projects**: of a renamed project, the run is the renamed one. -/
theorem toOption_ofEntry_renamed {f : Path → Path} {P : Path → Prop} {entry entry' base' : Path}
    (hf : Path.IsRenaming f P)
    (hresolve : (Project.resolve files' settings entry').result.toOption =
      (Project.resolve files settings entry).result.toOption.map (Project.rename f base'))
    (hpaths : ∀ project, (Project.resolve files settings entry).result = .ok project →
      project.PathsIn P) :
    (ofEntry files' settings entry').result.toOption =
      (ofEntry files settings entry).result.toOption.map (rename f base') := by
  rw [toOption_ofEntry, toOption_ofEntry, hresolve]
  cases hproject : (Project.resolve files settings entry).result with
  | error _ => rfl
  | ok project =>
    have hms : ∀ m ∈ project.modules, P m.path :=
      fun m hm => ((hpaths project hproject).modules m hm).1
    have hbundle := Bundle.result_ofModules_renamed hf settings.bundle hms
    show (Bundle.ofModules settings.bundle
        (project.modules.map (Module.rename f))).result.toOption.map
          (Run.mk (project.rename f base')) =
      ((Bundle.ofModules settings.bundle project.modules).result.toOption.map (Run.mk project)).map
        (rename f base')
    rw [hbundle]
    cases (Bundle.ofModules settings.bundle project.modules).result <;> rfl

theorem pathsIn_of_ofEntry {P : Path → Prop} {entry : Path} {run : Run}
    (h : (ofEntry files settings entry).result = .ok run) (hproject : run.project.PathsIn P) :
    run.PathsIn P :=
  ⟨hproject, Bundle.paths_ofModules (ofEntry_eq_ok_iff.1 h).2 fun m hm => (hproject.modules m hm).1⟩

/-- **Runs do not depend on where a project lies.**  Let the same files lie below two directories,
each in canonical spelling, and the extension be one that is not refused.  Then an entry file can be
bundled in both places or in none.  If it can, then the texts of the two bundles are equal, and so
is all else that is made but the paths.  Each of these is the one directory followed by some names,
and in its place is the other directory followed by the same names. -/
theorem ofEntry_relocate (hext : settings.validate ≠ .error (.extension settings.extension))
    (hb : b.Normal) (hb' : b'.Normal) (hn : IsFileName n) (hagree : files.AgreesBelow b files' b') :
    (ofEntry files' settings (b'.child n)).result.toOption =
        (ofEntry files settings (b.child n)).result.toOption.map (rename (Path.relocate b b') b') ∧
      (∀ run, (ofEntry files settings (b.child n)).result = .ok run →
        (run.rename (Path.relocate b b') b').bundle.source = run.bundle.source ∧
          run.project.base = b ∧ run.PathsIn (Path.IsInside · b)) ∧
      ∀ names : List String, (∀ m ∈ names, IsFileName m) →
        Path.relocate b b' (names.foldl Path.child b) = names.foldl Path.child b' := by
  have hext := Settings.isUsableExtension_of_validate hext
  have hresolve := Project.toOption_resolve_relocate hext hb hb' hn hagree
  have hpaths : ∀ project, (Project.resolve files settings (b.child n)).result = .ok project →
      project.base = b ∧ project.PathsIn (Path.IsInside · b) :=
    fun _ => Project.isInside_of_resolve hext hb hb' hn hagree
  have hrun := toOption_ofEntry_renamed (Path.isRenaming_relocate hb hb') hresolve
    fun project h => (hpaths project h).2
  refine ⟨hrun, fun run h => ?_, fun names => Path.relocate_foldl_child b hb'⟩
  obtain ⟨hbase, hproject⟩ := hpaths _ (ofEntry_eq_ok_iff.1 h).1
  exact ⟨Bundle.source_rename _ _, hbase, pathsIn_of_ofEntry h hproject⟩

namespace Moved

/-- The two files of `Project.Pair`, in a directory below the root. -/
def store : Store :=
  ⟨[(⟨"/srv/main.lua"⟩, "require 'util'"), (⟨"/srv/util.lua"⟩, "return 1")]⟩

theorem normal_empty : (⟨""⟩ : Path).Normal :=
  Path.normal_normalize ⟨""⟩

theorem normal_dir : (⟨"/srv"⟩ : Path).Normal := by
  have h := Path.normal_normalize ⟨"/srv"⟩
  rwa [show Path.normalize ⟨"/srv"⟩ = ⟨"/srv"⟩ by decide +kernel] at h

theorem isFileName_main : IsFileName "main.lua" :=
  ⟨by decide, by decide, by decide, by decide⟩

theorem agreesBelow_store :
    Project.Pair.files.AgreesBelow ⟨""⟩ store.toFileSystem ⟨"/srv"⟩ := by
  let s : Store := ⟨[(⟨"main.lua"⟩, "require 'util'"), (⟨"util.lua"⟩, "return 1")]⟩
  have hmoved : s.relocate ⟨""⟩ ⟨"/srv"⟩ = store :=
    congrArg Store.mk (by decide +kernel)
  have hutil : IsFileName "util.lua" := ⟨by decide, by decide, by decide, by decide⟩
  have hs : ∀ file ∈ s.files, file.1.IsInside ⟨""⟩ := by
    intro file hfile
    obtain rfl | rfl := List.mem_pair.1 hfile
    · exact Path.isInside_child ⟨""⟩ isFileName_main
    · exact Path.isInside_child ⟨""⟩ hutil
  have hagree := Store.agreesBelow_relocate normal_empty normal_dir hs
  rwa [hmoved] at hagree

end Moved

theorem ofEntry_relocate_pair : ∃ run run',
    (ofEntry Project.Pair.files {} Project.Pair.entry).result = .ok run ∧
      (ofEntry Moved.store.toFileSystem {} ⟨"/srv/main.lua"⟩).result = .ok run' ∧
      run'.bundle.source = run.bundle.source ∧
      run.project.order = [⟨"util.lua"⟩, ⟨"main.lua"⟩] ∧
      run'.project.order = [⟨"/srv/util.lua"⟩, ⟨"/srv/main.lua"⟩] := by
  have hentry : Path.child ⟨""⟩ "main.lua" = Project.Pair.entry := by decide +kernel
  have hentry' : Path.child ⟨"/srv"⟩ "main.lua" = ⟨"/srv/main.lua"⟩ := by decide +kernel
  have hlast : Project.Pair.project.modules.getLast? = some
      { name := "main", path := Project.Pair.entry, source? := some "require 'util'",
        requires := [⟨"util.lua"⟩] } := by decide +kernel
  obtain ⟨bundle, hbundle⟩ : ∃ bundle, (Bundle.ofModules (Settings.bundle {})
      Project.Pair.project.modules).result = .ok bundle := ⟨_, Bundle.result_ofModules _ hlast⟩
  have hrun : (ofEntry Project.Pair.files {} Project.Pair.entry).result =
      .ok ⟨Project.Pair.project, bundle⟩ := ofEntry_eq_ok_iff.2 ⟨Project.Pair.resolve_eq, hbundle⟩
  have hext : Settings.validate {} ≠ .error (.extension (Settings.extension {})) := by
    decide +kernel
  obtain ⟨hmoved, hmade, -⟩ := ofEntry_relocate hext
    Moved.normal_empty Moved.normal_dir Moved.isFileName_main Moved.agreesBelow_store
  rw [hentry] at hmoved hmade
  rw [hentry', hrun, Except.toOption, Option.map_some, toOption_eq_some_iff] at hmoved
  have horder : Project.Pair.project.order = [⟨"util.lua"⟩, ⟨"main.lua"⟩] := by decide +kernel
  have horder' : (Project.Pair.project.rename (Path.relocate ⟨""⟩ ⟨"/srv"⟩) ⟨"/srv"⟩).order =
      [⟨"/srv/util.lua"⟩, ⟨"/srv/main.lua"⟩] := by decide +kernel
  exact ⟨_, _, hrun, hmoved, (hmade _ hrun).1, horder, horder'⟩

end Run

end LuaBundle
