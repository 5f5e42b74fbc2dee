import LuaBundle.Proofs.FileSystem.Store
import LuaBundle.Proofs.Project.DepthFirst
import LuaBundle.Run

/-!
# What a run reads

A walk asks for the text of a path when it enters the path, and for no other text.  So it goes the
same way in every file system that gives the same answers there, also when it fails.

* `Visits.congr` — the derivation of some visits, replayed in another file system;
* `Project.resolve_congr` — projects are resolved from what the walk reads and from two questions
  about the entry;
* `Run.ofEntry_of_discovered` — files that no file of the project asks for do not matter.
-/

set_option autoImplicit false

namespace LuaBundle

namespace Walk

variable {s : Scope} {w w' : Walk} {visits : List (String × Path)} {failure? : Option ReadFailure}

theorem load_congr {files files' : FileSystem} {p : Path} (h : files'.read p = files.read p) :
    load files' p = load files p := by
  rw [load, load, h]

/-- **Visits, replayed** with other files that give the same text at each path that was entered. -/
theorem Visits.congr {files' : FileSystem} (h : Visits s visits w w' failure?)
    (hread : ∀ p ∈ w'.entered, files'.read p = s.files.read p) :
    Visits { s with files := files' } visits w w' failure? := by
  -- a path that is entered on the way is still among the entered ones at the end
  induction h with
  | nil => exact .nil
  | again hp _ ih => exact .again hp (ih hread)
  | unreadable hp hl => exact .unreadable hp ((load_congr (hread _ (by simp))).trans hl)
  | broken hp hl h ih =>
    exact .broken hp ((load_congr (hread _ h.mem_entered_of_addModule)).trans hl) (ih hread)
  | finish hp hl h h' ih ih' =>
    have hread₁ := fun q hq => hread q (h'.extends.entered hq)
    exact .finish hp ((load_congr (hread₁ _ h.mem_entered_of_addModule)).trans hl) (ih hread₁)
      (ih' hread)

end Walk

namespace Project

variable {files files' : FileSystem} {settings : Settings} {entry start : Path}

/-! ## Projects -/

/-- What a walk from a start discovers: the start, and what the files that it enters call. -/
def Discovered (files : FileSystem) (settings : Settings) (start p : Path) : Prop :=
  p = start ∨ ∃ q ∈ (walk files settings start).1.entered,
    (scope files settings start).Calls q p

theorem visits_walk (files : FileSystem) (settings : Settings) (start : Path) :
    Walk.Visits (scope files settings start) [(start.stem, start)] {}
      (walk files settings start).1 (walk files settings start).2 :=
  Walk.visits_visit _ _ _ _

/-- A walk enters only what it discovers. -/
theorem discovered_of_mem_entered {p : Path} (hp : p ∈ (walk files settings start).1.entered) :
    Discovered files settings start p := by
  refine (visits_walk files settings start).entered_of_closed
    (fun q hq r hr => .inr ⟨q, hq, hr⟩) (fun v hv => .inl ?_) (by simp) p hp
  rw [List.mem_singleton.1 hv]

theorem walk_congr (hread : ∀ p ∈ (walk files settings start).1.entered,
    files'.read p = files.read p) : walk files' settings start = walk files settings start :=
  Walk.visits_iff.1 ((visits_walk files settings start).congr hread)

/-- **What a project is resolved from**: two answers about the entry, and the texts of the paths
that the walk enters. -/
theorem resolve_congr (hhas : files'.has entry.normalize = files.has entry.normalize)
    (hfile : files'.isFile entry.normalize = files.isFile entry.normalize)
    (hread : ∀ p ∈ (walk files settings entry.normalize).1.entered,
      files'.read p = files.read p) :
    resolve files' settings entry = resolve files settings entry := by
  simp only [resolve, hhas, hfile, walk_congr hread]
  rfl

/-- A project is resolved only from an entry that is a file. -/
theorem isFile_of_resolve_eq_ok {project : Project}
    (h : (resolve files settings entry).result = .ok project) : files.isFile entry.normalize :=
  (resolve_eq_ok_iff.1 h).2.1

end Project

theorem toOption_eq_some_iff {ε α : Type} {x : Except ε α} {a : α} :
    x.toOption = some a ↔ x = .ok a := by
  cases x <;> simp [Except.toOption]

namespace Run

variable {files files' : FileSystem} {settings : Settings} {entry : Path}

/-! ## Runs -/

theorem ofEntry_congr
    (h : Project.resolve files' settings entry = Project.resolve files settings entry) :
    ofEntry files' settings entry = ofEntry files settings entry := by
  simp only [ofEntry, resolve, h]

/-- What a run makes: a project, and the bundle of its modules. -/
theorem ofEntry_eq_ok_iff {run : Run} : (ofEntry files settings entry).result = .ok run ↔
    (Project.resolve files settings entry).result = .ok run.project ∧
      (Bundle.ofModules settings.bundle run.project.modules).result = .ok run.bundle := by
  constructor
  · intro h
    obtain ⟨project, hproject, h⟩ := Logged.result_bind_eq_ok_iff.1 h
    obtain ⟨-, -, hproject⟩ := Logged.result_bind_eq_ok_iff.1 hproject
    obtain ⟨bundle, hbundle, h⟩ := Logged.result_bind_eq_ok_iff.1 h
    obtain ⟨-, -, h⟩ := Logged.result_bind_eq_ok_iff.1 h
    obtain rfl : { project, bundle } = run := by split at h <;> exact Except.ok.inj h
    exact ⟨Logged.result_mapError_eq_ok_iff.1 hproject, Logged.result_mapError_eq_ok_iff.1 hbundle⟩
  · rintro ⟨hproject, hbundle⟩
    refine Logged.result_bind_eq_ok_iff.2 ⟨run.project, Logged.result_bind_eq_ok_iff.2
      ⟨(), rfl, Logged.result_mapError_eq_ok_iff.2 hproject⟩, Logged.result_bind_eq_ok_iff.2
      ⟨run.bundle, Logged.result_mapError_eq_ok_iff.2 hbundle, Logged.result_bind_eq_ok_iff.2
      ⟨(), rfl, ?_⟩⟩⟩
    split <;> rfl

theorem isFile_of_ofEntry_eq_ok {run : Run} (h : (ofEntry files settings entry).result = .ok run) :
    files.isFile entry.normalize :=
  Project.isFile_of_resolve_eq_ok (ofEntry_eq_ok_iff.1 h).1

/-- Stores that hold the same text, or none, at each path that is discovered in the first. -/
theorem ofEntry_store_congr {store store' : Store} (hget : ∀ p,
    Project.Discovered store.toFileSystem settings entry.normalize p → store'.get? p = store.get? p)
    (hfile : store.isFile entry.normalize) :
    ofEntry store'.toFileSystem settings entry = ofEntry store.toFileSystem settings entry := by
  have hstart : store'.isFile entry.normalize = store.isFile entry.normalize := by
    rw [Store.isFile, Store.isFile, hget _ (.inl rfl)]
  refine ofEntry_congr (Project.resolve_congr ?_ hstart fun p hp => ?_)
  · show store'.has _ = store.has _
    rw [Store.has, Store.has, hstart, hfile, Bool.true_or, Bool.true_or]
  · show store'.read p = store.read p
    rw [Store.read, Store.read, hget p (Project.discovered_of_mem_entered hp)]

/-- **Only discovered files matter.**  File systems that agree about the entry and on what a walk in
the first of them discovers give the same project or the same error, and so the same run with all
its notices.  In a store, other files can come, go and change without a trace in any bundle, and so
can the order in which the files were put there. -/
theorem ofEntry_of_discovered (settings : Settings) (entry : Path) :
    (∀ files files' : FileSystem,
      files'.has entry.normalize = files.has entry.normalize →
      files'.isFile entry.normalize = files.isFile entry.normalize →
      (∀ p, Project.Discovered files settings entry.normalize p → files'.read p = files.read p) →
        Project.resolve files' settings entry = Project.resolve files settings entry ∧
          ofEntry files' settings entry = ofEntry files settings entry) ∧
    (∀ store store' : Store,
      (∀ p, Project.Discovered store.toFileSystem settings entry.normalize p →
        store'.get? p = store.get? p) →
      ∀ run, (ofEntry store'.toFileSystem settings entry).result = .ok run ↔
        (ofEntry store.toFileSystem settings entry).result = .ok run) ∧
    ∀ l l' : List (Path × String), l.Perm l' → (l.map (·.1.normalize)).Nodup →
      ofEntry (Store.ofList l).toFileSystem settings entry =
        ofEntry (Store.ofList l').toFileSystem settings entry := by
  refine ⟨fun files files' hhas hfile hread => ?_, fun store store' hget run => ?_,
    fun l l' hp hl => ?_⟩
  · have hresolve := Project.resolve_congr hhas hfile
      fun p hp => hread p (Project.discovered_of_mem_entered hp)
    exact ⟨hresolve, ofEntry_congr hresolve⟩
  · by_cases hfile : store.isFile entry.normalize
    · rw [ofEntry_store_congr hget hfile]
    · -- without an entry there is no bundle, whatever the reported error is
      have hfile' : ¬ store'.isFile entry.normalize := by
        rwa [Store.isFile, hget _ (.inl rfl), ← Store.isFile]
      exact ⟨fun h => absurd (isFile_of_ofEntry_eq_ok h) hfile',
        fun h => absurd (isFile_of_ofEntry_eq_ok h) hfile⟩
  · rw [Store.toFileSystem_ofList_perm hp hl]

namespace Crowd

open Project

/-- The store of the two files, filled in the other order and with a file that nothing requires. -/
def contents : List (Path × String) :=
  [(⟨"./util.lua"⟩, "return 1"), (⟨"lib/other.lua"⟩, "require 'main'"),
    (⟨"main.lua"⟩, "require 'util'")]

theorem walk_pair : Project.walk Pair.files {} Pair.entry = (Pair.walk, none) :=
  Walk.visits_iff.1 Pair.visits_walk

/-- What is discovered in the two files. -/
theorem discovered_pair {p : Path}
    (h : Project.Discovered Pair.files {} Pair.entry.normalize p) :
    p = Pair.entry ∨ p = ⟨"util.lua"⟩ := by
  rw [Pair.normalize_entry, Project.Discovered, walk_pair] at h
  have hentered : Pair.walk.entered = [Pair.entry, ⟨"util.lua"⟩] := by decide +kernel
  have hmain : (scope Pair.files {} Pair.entry).calledPaths Pair.entry = [⟨"util.lua"⟩] := by
    decide +kernel
  have hutil : (scope Pair.files {} Pair.entry).calledPaths ⟨"util.lua"⟩ = [] := by
    decide +kernel
  simpa [Scope.Calls, hentered, hmain, hutil] using h

end Crowd

/-- A file that nothing requires is not part of the project, although it requires the entry. -/
theorem ofEntry_crowd :
    (Project.resolve (Store.ofList Crowd.contents).toFileSystem {} Project.Pair.entry).result =
        .ok Project.Pair.project ∧
      (∀ run, (ofEntry (Store.ofList Crowd.contents).toFileSystem {} Project.Pair.entry).result =
          .ok run ↔ (ofEntry Project.Pair.files {} Project.Pair.entry).result = .ok run) ∧
      ofEntry (Store.ofList Crowd.contents).toFileSystem {} Project.Pair.entry =
        ofEntry (Store.ofList Crowd.contents.reverse).toFileSystem {} Project.Pair.entry := by
  obtain ⟨hfiles, hstores, hperm⟩ := ofEntry_of_discovered {} Project.Pair.entry
  refine ⟨?_, hstores _ _ fun p hp => ?_, hperm _ _ (List.reverse_perm _).symm (by decide +kernel)⟩
  · have hread : ∀ p, Project.Discovered Project.Pair.files {} Project.Pair.entry.normalize p →
        (Store.ofList Crowd.contents).toFileSystem.read p = Project.Pair.files.read p := by
      intro p hp
      obtain rfl | rfl := Crowd.discovered_pair hp
      · decide +kernel
      · decide +kernel
    rw [(hfiles _ _ (by decide +kernel) (by decide +kernel) hread).1, Project.Pair.resolve_eq]
  · obtain rfl | rfl := Crowd.discovered_pair hp
    · decide +kernel
    · decide +kernel

end Run

end LuaBundle
