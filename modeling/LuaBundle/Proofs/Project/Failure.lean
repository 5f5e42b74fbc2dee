import LuaBundle.Proofs.Project.DepthFirst

/-!
# When a project cannot be resolved

Resolving fails for three reasons: the entry is not a file that can be read, something that it leads
to is there but cannot be read, or circles are not allowed and there is one.  A file that is missing
is no reason, unless it is the entry.

* `Visits.find?_failsAt` — a walk fails at the first path in depth-first order that cannot be read;
* `exists_entry_iff` — the walk from an entry finds the entry if it can be read;
* `edge_graph_iff` — the edges of a project are the calls among the local files that the entry leads
  to, and so `cycles_eq_nil_iff_calls` says which projects have no circles;
* `exists_resolve_eq_ok_iff` and `resolve_fails_iff` — when resolving succeeds and when it fails.
-/

set_option autoImplicit false

namespace LuaBundle

open Relation

namespace FileSystem

variable {files : FileSystem} {p : Path}

/-- Whether there is no file to be read at a path. -/
def missesAt (files : FileSystem) (p : Path) : Bool :=
  match files.read p with
  | .ok _ => false
  | .error e => e.isMissing

/-- Whether something else than a missing file keeps a path from being read. -/
def failsAt (files : FileSystem) (p : Path) : Bool :=
  match files.read p with
  | .ok _ => false
  | .error e => !e.isMissing

theorem failsAt_iff : files.failsAt p ↔ ∃ e, files.read p = .error e ∧ ¬ e.isMissing := by
  cases hr : files.read p <;> simp [failsAt, hr]

/-- A path can be read, or there is no file, or something else is wrong. -/
theorem exists_read_eq_ok_iff :
    (∃ text, files.read p = .ok text) ↔ ¬ files.missesAt p ∧ ¬ files.failsAt p := by
  cases hr : files.read p <;> simp [missesAt, failsAt, hr]

theorem failsAt_iff_load : files.failsAt p ↔ ∃ e, Walk.load files p = .error e := by
  rw [failsAt_iff]
  constructor
  · rintro ⟨e, hr, hm⟩
    exact ⟨⟨p, e⟩, Walk.load_eq_error_iff.2 ⟨rfl, hr, hm⟩⟩
  · rintro ⟨e, hl⟩
    exact ⟨e.error, (Walk.load_eq_error_iff.1 hl).2⟩

theorem not_failsAt_of_load {source? : Option String} (hl : Walk.load files p = .ok source?) :
    ¬ files.failsAt p := by
  rw [failsAt_iff_load, hl]
  simp

/-! ### Errors at some paths -/

variable {errors : List (Path × FileError)}

theorem read_withErrors (files : FileSystem) (errors : List (Path × FileError)) (p : Path) :
    (files.withErrors errors).read p = files.read p ∨
      ∃ e ∈ errors, e.1 ≈ p ∧ (files.withErrors errors).read p = .error e.2 := by
  cases hf : errors.find? (fun e => decide (e.1 ≈ p)) with
  | none => exact .inl (by simp only [withErrors, hf])
  | some e =>
    have he : e.1 ≈ p := by simpa using List.find?_some hf
    exact .inr ⟨e, List.mem_of_find?_eq_some hf, he, by simp only [withErrors, hf]⟩

theorem read_withErrors_of_apart (he : ∀ e ∈ errors, ¬ e.1 ≈ p) :
    (files.withErrors errors).read p = files.read p :=
  (files.read_withErrors errors p).resolve_right fun ⟨e, hm, hp, _⟩ => he e hm hp

/-- With files missing, nothing becomes readable or goes wrong in another way. -/
theorem read_withErrors_of_missing (he : ∀ e ∈ errors, e.2.isMissing) (p : Path) :
    (files.withErrors errors).read p = files.read p ∨
      ∃ e, (files.withErrors errors).read p = .error e ∧ e.isMissing :=
  (files.read_withErrors errors p).imp_right fun ⟨e, hm, _, hr⟩ => ⟨e.2, hr, he e hm⟩

theorem failsAt_of_withErrors (he : ∀ e ∈ errors, e.2.isMissing)
    (h : (files.withErrors errors).failsAt p) : files.failsAt p := by
  obtain ⟨e, hr, hm⟩ := failsAt_iff.1 h
  rcases read_withErrors_of_missing he p with hsame | ⟨e', hr', hm'⟩
  · exact failsAt_iff.2 ⟨e, hsame ▸ hr, hm⟩
  · obtain rfl := Except.error.inj (hr.symm.trans hr')
    exact absurd hm' hm

end FileSystem

namespace Walk

variable {s : Scope} {w : Walk} {name : String} {start p : Path}

/-- **A walk fails at the first path that cannot be read.** -/
theorem Visits.find?_failsAt {e : ReadFailure} (h : Visits s [(name, start)] {} w (some e))
    (hs : start.Normal) {order : List Path} (ho : DepthFirst s.calledPaths [] [start] order) :
    order.find? s.files.failsAt = some e.path ∧ s.files.read e.path = .error e.error := by
  obtain ⟨loaded, hentered, hloaded, hfail⟩ := h.exists_entered_eq
  obtain ⟨after, rfl⟩ := h.isPrefix_of_depthFirst (by simpa using hs) (by simp) ho
  have hload := hfail e rfl
  refine ⟨?_, (load_eq_error_iff.1 hload).2.1⟩
  rw [List.find?_eq_some_iff_append]
  refine ⟨FileSystem.failsAt_iff_load.2 ⟨e, hload⟩, loaded, after, by simp [hentered], ?_⟩
  intro p hp
  obtain ⟨source?, hl⟩ := hloaded p hp
  simpa using FileSystem.not_failsAt_of_load hl

/-- A walk that does not fail finishes what its start leads to. -/
theorem Visits.mem_finished_iff (h : Visits s [(name, start)] {} w none) (hs : start.Normal) :
    p ∈ w.finished ↔ ReflTransGen s.Calls start p := by
  have horder := h.depthFirst (by simpa using hs) (by simp)
  rw [← horder.mem_iff]
  refine ⟨fun hp => ?_, fun hp => h.complete.finished hp⟩
  obtain ⟨m, hm, rfl⟩ := List.mem_map.1 (h.complete.sound.finished_found hp)
  exact h.complete.sound.mem_entered hm

/-- A walk that does not fail has met nothing that cannot be read. -/
theorem Visits.not_failsAt (h : Visits s [(name, start)] {} w none) (hs : start.Normal)
    (hp : ReflTransGen s.Calls start p) : ¬ s.files.failsAt p := by
  obtain ⟨m, hm, rfl⟩ := List.mem_map.1
    (h.complete.sound.finished_found ((h.mem_finished_iff hs).2 hp))
  exact FileSystem.not_failsAt_of_load (h.complete.sound.loaded m hm)

end Walk

namespace Project

section Walk

variable {s : Scope} {w : Walk} {name : String} {start base p q : Path}

/-- The entry of a walk is where it started, if that can be read. -/
theorem exists_entry_iff (base : Path) (h : Walk.Visits s [(name, start)] {} w none)
    (hs : start.Normal) :
    (∃ m, entry? (ofWalk base w) = some m ∧ m.path ≈ start) ↔
      ∃ text, s.files.read start = .ok text := by
  obtain ⟨first, hfirst⟩ := h.exists_fromStart hs
  have hpath : first.path = start := hfirst.path_eq
  have he : first.path ≈ start := Path.equiv_of_eq hpath
  constructor
  · rintro ⟨m, hm, hms⟩
    have hm := List.mem_of_getLast? hm
    obtain rfl := hfirst.eq_first ((mem_modules_ofWalk hfirst.sound).1 hm).1 hms
    exact ⟨_, hpath ▸ (read_of_mem_modules hfirst.sound hm).2⟩
  · rintro ⟨text, hr⟩
    refine ⟨first, ?_, he⟩
    have hmodule : w.module? start = some first :=
      hfirst.sound.module?_eq_some_iff.2 ⟨hfirst.mem_found, he⟩
    have hlocal : first.isLocal := by
      rw [Module.isLocal, hfirst.sound.source?_eq hfirst.mem_found (hpath ▸ hr),
        Option.isSome_some]
    -- the start is finished last, so it stays last when what is not local is left out
    obtain ⟨before, hbefore⟩ := List.getLast?_eq_some_iff.1 hfirst.last
    have hentry : entry? (ofWalk base w) =
        ((w.finished.filterMap w.module?).filter (·.isLocal)).getLast? := rfl
    rw [hentry, hbefore, List.filterMap_append, List.filter_append,
      List.filterMap_cons_some hmodule, List.filterMap_nil, List.filter_cons_of_pos hlocal,
      List.filter_nil, List.getLast?_concat]

/-- **The graph of a project** has the calls among the local files that the start leads to. -/
theorem edge_graph_iff (h : Walk.Visits s [(name, start)] {} w none) (hs : start.Normal) :
    (ofWalk base w).graph.Edge p q ↔
      ReflTransGen s.Calls start p ∧ s.Calls p q ∧ ∃ text, s.files.read q = .ok text := by
  have hc := h.complete
  constructor
  · intro he
    have hends := (proper_graph _).edges _ he
    have hp := nodes_graph_subset_order _ hends.1
    have hq := nodes_graph_subset_order _ hends.2
    obtain ⟨m, hm, rfl⟩ := List.mem_map.1 hp
    obtain ⟨d, hd, rfl⟩ := List.mem_map.1 hq
    obtain ⟨text, hr, call, hcall, htarget⟩ := (mem_edges_graph hc.sound hm hd).1 he
    have htarget : s.target call.name = d.path :=
      (s.normal_target _).eq_of_equiv (normal_of_mem_order hc hs hq) htarget
    exact ⟨(h.mem_finished_iff hs).1 ((mem_order_ofWalk hc.sound).1 hp).1,
      Scope.calls_iff.2 ⟨text, hr, call, hcall, htarget⟩, ((mem_order_ofWalk hc.sound).1 hq).2⟩
  · rintro ⟨hp, hcalls, text', hread⟩
    obtain ⟨text, hr, call, hcall, htarget⟩ := Scope.calls_iff.1 hcalls
    have hfin := (h.mem_finished_iff hs).2 hp
    have hfin' := (h.mem_finished_iff hs).2 (hp.tail hcalls)
    obtain ⟨m, hm, rfl, _⟩ := exists_module_of_read base hc.sound hfin hr
    obtain ⟨d, hd, rfl, _⟩ := exists_module_of_read base hc.sound hfin' hread
    exact (mem_edges_graph hc.sound hm hd).2
      ⟨text, hr, call, hcall, Path.equiv_of_eq htarget⟩

/-- Calls that lead to a local file are edges. -/
theorem leads_of_transGen (h : Walk.Visits s [(name, start)] {} w none) (hs : start.Normal)
    (hp : ReflTransGen s.Calls start p) (hq : ∃ text, s.files.read q = .ok text)
    (hpq : TransGen s.Calls p q) : (ofWalk base w).graph.Leads p q := by
  induction hpq using TransGen.head_induction_on with
  | single hcall => exact .single ((edge_graph_iff h hs).2 ⟨hp, hcall, hq⟩)
  | @head a b hcall hbq ih =>
    -- what calls something can be read
    obtain ⟨_, hcall', _⟩ := TransGen.head'_iff.1 hbq
    obtain ⟨text, hread, _⟩ := Scope.calls_iff.1 hcall'
    exact .head ((edge_graph_iff h hs).2 ⟨hp, hcall, text, hread⟩) (ih (hp.tail hcall))

/-- **A project has no circles** if nothing that the start leads to leads back to itself. -/
theorem cycles_eq_nil_iff_calls (base : Path) (h : Walk.Visits s [(name, start)] {} w none)
    (hs : start.Normal) :
    (ofWalk base w).cycles = [] ↔
      ¬ ∃ p, ReflTransGen s.Calls start p ∧ TransGen s.Calls p p := by
  rw [cycles_ofWalk, (proper_graph _).cycles_eq_nil_iff, (proper_graph _).hasCycle_iff]
  refine not_congr ⟨?_, ?_⟩
  · rintro ⟨p, hp⟩
    obtain ⟨q, he, _⟩ := TransGen.head'_iff.1 hp
    exact ⟨p, ((edge_graph_iff h hs).1 he).1,
      TransGen.mono (fun _ _ he => ((edge_graph_iff h hs).1 he).2.1) _ _ hp⟩
  · rintro ⟨p, hr, hp⟩
    obtain ⟨q, hcall, _⟩ := TransGen.head'_iff.1 hp
    obtain ⟨text, hread, _⟩ := Scope.calls_iff.1 hcall
    exact ⟨p, leads_of_transGen h hs hr ⟨text, hread⟩ hp⟩

end Walk

/-! ## Success and failure -/

section Resolve

variable {files : FileSystem} {settings : Settings} {entry : Path}

theorem visits_of_walk (files : FileSystem) (settings : Settings) (entry : Path) :
    Walk.Visits (scope files settings entry) [(entry.stem, entry)] {}
      (walk files settings entry).1 (walk files settings entry).2 :=
  Walk.visits_visit _ _ _ _

theorem result_resolve_of_walk (hhas : files.has entry.normalize)
    (hfile : files.isFile entry.normalize) {w : Walk} {failure : ReadFailure}
    (hw : walk files settings entry.normalize = (w, some failure)) :
    (resolve files settings entry).result = .error (.unreadable failure) := by
  simp only [resolve, hhas, hfile, hw, Bool.not_true, Bool.false_eq_true, if_false]
  rfl

/-- **When a project is resolved.** -/
theorem exists_resolve_eq_ok_iff :
    (∃ project, (resolve files settings entry).result = .ok project) ↔
      (files.has entry.normalize ∧ files.isFile entry.normalize ∧
        ¬ files.missesAt entry.normalize) ∧
      (∀ p, ReflTransGen (scope files settings entry.normalize).Calls entry.normalize p →
        ¬ files.failsAt p) ∧
      (settings.strictCycles →
        ¬ ∃ p, ReflTransGen (scope files settings entry.normalize).Calls entry.normalize p ∧
          TransGen (scope files settings entry.normalize).Calls p p) := by
  have hs : entry.normalize.Normal := Path.normal_normalize entry
  constructor
  · rintro ⟨project, h⟩
    obtain ⟨hhas, hfile, w, hw, rfl, hentry, hstrict⟩ := resolve_eq_ok_iff.1 h
    have hread := (exists_entry_iff _ hw hs).1 hentry
    exact ⟨⟨hhas, hfile, (FileSystem.exists_read_eq_ok_iff.1 hread).1⟩,
      fun p hp => hw.not_failsAt hs hp,
      fun h => (cycles_eq_nil_iff_calls _ hw hs).1 (hstrict h)⟩
  · rintro ⟨⟨hhas, hfile, hmiss⟩, hfail, hstrict⟩
    obtain ⟨order, horder⟩ := (scope files settings entry.normalize).exists_depthFirst hs
    have hw := visits_of_walk files settings entry.normalize
    cases hfailure : (walk files settings entry.normalize).2 with
    | some e =>
      rw [hfailure] at hw
      obtain ⟨hfind, _⟩ := hw.find?_failsAt hs horder
      have hreach := horder.mem_iff.1 (List.mem_of_find?_eq_some hfind)
      exact absurd (List.find?_some hfind) (hfail _ hreach)
    | none =>
      rw [hfailure] at hw
      refine ⟨_, resolve_eq_ok_iff.2 ⟨hhas, hfile, _, hw, rfl, ?_, fun h => ?_⟩⟩
      · exact (exists_entry_iff _ hw hs).2
          (FileSystem.exists_read_eq_ok_iff.2 ⟨hmiss, hfail _ .refl⟩)
      · exact (cycles_eq_nil_iff_calls _ hw hs).2 (hstrict h)

theorem calls_of_withErrors {errors : List (Path × FileError)}
    (he : ∀ e ∈ errors, e.2.isMissing) (start p q : Path)
    (h : (scope (files.withErrors errors) settings start).Calls p q) :
    (scope files settings start).Calls p q := by
  obtain ⟨text, hr, hcall⟩ := Scope.calls_iff.1 h
  rcases FileSystem.read_withErrors_of_missing he p with hsame | ⟨e, hr', _⟩
  · exact Scope.calls_iff.2 ⟨text, hsame.symm.trans hr, hcall⟩
  · exact absurd (hr'.symm.trans hr) (by simp)

/-- Files that go missing, the entry apart, do no harm. -/
theorem exists_resolve_withErrors {errors : List (Path × FileError)}
    (he : ∀ e ∈ errors, e.2.isMissing ∧ ¬ e.1 ≈ entry.normalize)
    (h : ∃ project, (resolve files settings entry).result = .ok project) :
    ∃ project, (resolve (files.withErrors errors) settings entry).result = .ok project := by
  have hmissing : ∀ e ∈ errors, e.2.isMissing := fun e hm => (he e hm).1
  have hstart : (files.withErrors errors).read entry.normalize = files.read entry.normalize :=
    FileSystem.read_withErrors_of_apart fun e hm => (he e hm).2
  have hcalls : ∀ p q, (scope (files.withErrors errors) settings entry.normalize).Calls p q →
      (scope files settings entry.normalize).Calls p q := calls_of_withErrors hmissing _
  obtain ⟨⟨hhas, hfile, hmiss⟩, hfail, hstrict⟩ := exists_resolve_eq_ok_iff.1 h
  refine exists_resolve_eq_ok_iff.2 ⟨⟨hhas, hfile, ?_⟩, fun p hp hf => ?_, fun hs ⟨p, hp, hc⟩ => ?_⟩
  · rwa [FileSystem.missesAt, hstart]
  · exact hfail p (ReflTransGen.mono hcalls _ _ hp) (FileSystem.failsAt_of_withErrors hmissing hf)
  · exact hstrict hs ⟨p, ReflTransGen.mono hcalls _ _ hp, TransGen.mono hcalls _ _ hc⟩

/-- Circles do not change what is resolved, only whether it is allowed. -/
theorem resolve_of_strict {project : Project}
    (h : (resolve files { settings with strictCycles := true } entry).result = .ok project) :
    (resolve files { settings with strictCycles := false } entry).result = .ok project := by
  obtain ⟨hhas, hfile, w, hw, hproject, hentry, _⟩ := resolve_eq_ok_iff.1 h
  exact resolve_eq_ok_iff.2 ⟨hhas, hfile, w, hw, hproject, hentry, nofun⟩

/-- What is reported when something cannot be read: the first such path. -/
theorem exists_resolve_eq_unreadable (hhas : files.has entry.normalize)
    (hfile : files.isFile entry.normalize) {order : List Path}
    (ho : DepthFirst (scope files settings entry.normalize).calledPaths [] [entry.normalize] order)
    {p : Path} (hp : p ∈ order) (hf : files.failsAt p) :
    ∃ failure, order.find? files.failsAt = some failure.path ∧
      files.read failure.path = .error failure.error ∧
      (resolve files settings entry).result = .error (.unreadable failure) := by
  have hs : entry.normalize.Normal := Path.normal_normalize entry
  have hw := visits_of_walk files settings entry.normalize
  cases hfailure : (walk files settings entry.normalize).2 with
  | none =>
    rw [hfailure] at hw
    exact absurd hf (hw.not_failsAt hs (ho.mem_iff.1 hp))
  | some failure =>
    rw [hfailure] at hw
    obtain ⟨hfind, hread⟩ := hw.find?_failsAt hs ho
    exact ⟨failure, hfind, hread, result_resolve_of_walk hhas hfile (Prod.ext rfl hfailure)⟩

/-- **When resolving fails.**  It fails if the entry is no file or is missing, if something that the
entry leads to cannot be read for another reason, or if circles are not allowed and the local files
that the entry leads to have one; and for no other reason.  It still succeeds if files other than
the entry go missing, and where circles are not allowed it gives the same project.  If the entry is
a file, then what cannot be read is reported, by its first path in depth-first order. -/
theorem resolve_fails_iff (files : FileSystem) (settings : Settings) (entry : Path) :
    let start := entry.normalize
    let s := scope files settings start
    ((∃ fault, (resolve files settings entry).result = .error fault) ↔
      (¬ files.has start ∨ ¬ files.isFile start ∨ files.missesAt start) ∨
      (∃ p, ReflTransGen s.Calls start p ∧ files.failsAt p) ∨
      (settings.strictCycles ∧ ∃ p, ReflTransGen s.Calls start p ∧ TransGen s.Calls p p)) ∧
    (∀ errors : List (Path × FileError), (∀ e ∈ errors, e.2.isMissing ∧ ¬ e.1 ≈ start) →
      (∃ project, (resolve files settings entry).result = .ok project) →
      ∃ project, (resolve (files.withErrors errors) settings entry).result = .ok project) ∧
    (∀ project, (resolve files { settings with strictCycles := true } entry).result = .ok project →
      (resolve files { settings with strictCycles := false } entry).result = .ok project) ∧
    (files.has start → files.isFile start →
      (∃ p, ReflTransGen s.Calls start p ∧ files.failsAt p) →
      ∃ order failure, DepthFirst s.calledPaths [] [start] order ∧
        order.find? files.failsAt = some failure.path ∧
        files.read failure.path = .error failure.error ∧
        (resolve files settings entry).result = .error (.unreadable failure)) := by
  refine ⟨?_, fun errors he h => exists_resolve_withErrors he h,
    fun project h => resolve_of_strict h, ?_⟩
  · have hresult : (∃ fault, (resolve files settings entry).result = .error fault) ↔
        ¬ ∃ project, (resolve files settings entry).result = .ok project := by
      cases (resolve files settings entry).result <;> simp
    rw [hresult, exists_resolve_eq_ok_iff]
    simp only [not_and_or, not_forall, not_not, exists_prop]
  · rintro hhas hfile ⟨p, hp, hf⟩
    obtain ⟨order, ho⟩ := (scope files settings entry.normalize).exists_depthFirst
      (Path.normal_normalize entry)
    obtain ⟨failure, hreport⟩ :=
      exists_resolve_eq_unreadable hhas hfile ho (ho.mem_iff.2 hp) hf
    exact ⟨order, failure, ho, hreport⟩

end Resolve

/-! ## A file that must not be read -/

namespace Denied

def error : FileError := ⟨.permissionDenied, "denied"⟩

/-- Two files, the second of which is required by the first and must not be read. -/
def files : FileSystem := Pair.files.withErrors [(⟨"util.lua"⟩, error)]

end Denied

/-- The error names the file that must not be read. -/
theorem resolve_fails_denied :
    (resolve Denied.files {} Pair.entry).result =
      .error (.unreadable ⟨⟨"util.lua"⟩, Denied.error⟩) := by
  let s := scope Denied.files {} Pair.entry.normalize
  have hmain : s.calledPaths Pair.entry.normalize = [⟨"util.lua"⟩] := by decide +kernel
  have hutil : s.calledPaths ⟨"util.lua"⟩ = [] := by decide +kernel
  have horder : DepthFirst s.calledPaths [] [Pair.entry.normalize]
      [Pair.entry.normalize, ⟨"util.lua"⟩] := by
    refine .enter (by simp) ?_ .nil
    rw [hmain]
    refine .enter (by decide +kernel) ?_ .nil
    rw [hutil]
    exact .nil
  obtain ⟨_, _, _, hreport⟩ := resolve_fails_iff Denied.files {} Pair.entry
  obtain ⟨order, ⟨path, error⟩, ho, hfind, hread, hresult⟩ := hreport (by decide +kernel)
    (by decide +kernel) ⟨⟨"util.lua"⟩, .single (show _ ∈ s.calledPaths _ by simp [hmain]),
      by decide +kernel⟩
  obtain rfl := ho.unique horder
  have hpath : [Pair.entry.normalize, ⟨"util.lua"⟩].find? Denied.files.failsAt
      = some ⟨"util.lua"⟩ := by decide +kernel
  obtain rfl : ⟨"util.lua"⟩ = path := Option.some.inj (hpath.symm.trans hfind)
  have hdenied : Denied.files.read ⟨"util.lua"⟩ = .error Denied.error := by decide +kernel
  dsimp only at hread
  obtain rfl : Denied.error = error := Except.error.inj (hdenied.symm.trans hread)
  exact hresult

end Project

end LuaBundle
