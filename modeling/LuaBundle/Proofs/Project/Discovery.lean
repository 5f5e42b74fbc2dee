import LuaBundle.FileSystem.Store
import LuaBundle.Proofs.Project.Members

/-!
# Discovery

A project is resolved from an entry file by one walk.  If that walk does not fail, then it has found
what the entry leads to and nothing else.

* `Scope.Requested` — the visits that follow from some visits, and `Visits.requested`: a walk enters
  no other paths and gives no other names;
* `Walk.Complete` — what a walk is that did not fail;
* `resolve_eq_ok_iff` — every resolved project comes from such a walk;
* `Scope.Reached` — the files that an entry file leads to;
* `modules_of_resolve` — they are the modules of the project, once each and the entry last.
-/

set_option autoImplicit false

namespace LuaBundle

/-! ## Requested visits -/

/-- A visit that follows from some visits: one of them, or one by a call in a file that is visited.
-/
inductive Scope.Requested (s : Scope) (starts : List (String × Path)) : String × Path → Prop
  | start {v : String × Path} (hv : v ∈ starts) : s.Requested starts v
  | call {v : String × Path} {text : String} {call : Lua.RequireCall} (h : s.Requested starts v)
      (hr : s.files.read v.2 = .ok text) (hc : call ∈ Lua.requireCalls text) :
      s.Requested starts (call.name, s.target call.name)

theorem Scope.Requested.normal {s : Scope} {starts : List (String × Path)}
    (hs : ∀ v ∈ starts, v.2.Normal) {v : String × Path} (h : s.Requested starts v) :
    v.2.Normal := by
  cases h with
  | start hv => exact hs v hv
  | @call _ _ call => simpa only using s.normal_target call.name

namespace Walk

variable {s : Scope} {w w' : Walk} {starts visits : List (String × Path)}
  {failure? : Option ReadFailure}

/-- What a file that is visited requires is requested. -/
theorem requested_of_mem_pending {v : String × Path} (h : s.Requested starts v)
    {source? : Option String} (hl : load s.files v.2 = .ok source?) :
    ∀ u ∈ pending s source?, s.Requested starts u := by
  intro u hu
  cases source? with
  | none => simp [pending] at hu
  | some text =>
    obtain ⟨call, hc, rfl⟩ := mem_pending.1 hu
    exact .call h (read_of_load hl) hc

/-- Every path that was entered and every name that was given was requested. -/
structure AsRequested (s : Scope) (starts : List (String × Path)) (w : Walk) : Prop where
  entered : ∀ p ∈ w.entered, ∃ n, s.Requested starts (n, p)
  names : ∀ m ∈ w.found, ∀ n ∈ m.names, ∃ p, p ≈ m.path ∧ s.Requested starts (n, p)

namespace AsRequested

theorem empty (s : Scope) (starts : List (String × Path)) : AsRequested s starts {} :=
  ⟨by simp, by simp⟩

theorem addName (h : AsRequested s starts w) {name : String} {p : Path}
    (hv : s.Requested starts (name, p)) : AsRequested s starts (w.addName name p) where
  entered := by simpa using h.entered
  names m hm n hn := by
    obtain ⟨k, hk, rfl | ⟨hp, rfl⟩⟩ := exists_of_mem_addName hm
    · exact h.names m hk n hn
    · rw [Module.names, ← List.cons_append] at hn
      rcases List.mem_append.1 hn with hn | hn
      · exact h.names k hk n hn
      · exact ⟨p, Setoid.symm hp, List.mem_singleton.1 hn ▸ hv⟩

theorem enter (h : AsRequested s starts w) {name : String} {p : Path}
    (hv : s.Requested starts (name, p)) : AsRequested s starts (w.enter p) where
  entered q hq := by
    rcases List.mem_append.1 hq with hq | hq
    · exact h.entered q hq
    · exact ⟨name, List.mem_singleton.1 hq ▸ hv⟩
  names := h.names

theorem addModule (h : AsRequested s starts w) {name : String} {p : Path}
    (hv : s.Requested starts (name, p)) (source? : Option String) :
    AsRequested s starts ((w.enter p).addModule s name p source?) where
  entered := (h.enter hv).entered
  names m hm n hn := by
    rcases List.mem_append.1 hm with hm | hm
    · exact h.names m hm n hn
    · obtain rfl := List.mem_singleton.1 hm
      exact ⟨p, Setoid.refl p, List.mem_singleton.1 hn ▸ hv⟩

end AsRequested

theorem Visits.requested (h : Visits s visits w w' failure?)
    (hv : ∀ v ∈ visits, s.Requested starts v) (hw : AsRequested s starts w) :
    AsRequested s starts w' := by
  induction h with
  | nil => exact hw
  | again _ _ ih =>
    obtain ⟨hv, hrest⟩ := List.forall_mem_cons.1 hv
    exact ih hrest (hw.addName hv)
  | unreadable _ _ => exact hw.enter (List.forall_mem_cons.1 hv).1
  | broken _ hl _ ih =>
    obtain ⟨hv, _⟩ := List.forall_mem_cons.1 hv
    exact ih (requested_of_mem_pending hv hl) (hw.addModule hv _)
  | finish _ hl _ _ ih ih' =>
    obtain ⟨hv, hrest⟩ := List.forall_mem_cons.1 hv
    have hw₁ := ih (requested_of_mem_pending hv hl) (hw.addModule hv _)
    exact ih' hrest ⟨hw₁.entered, hw₁.names⟩

/-! ## Complete walks -/

/-- Visits that do not fail finish what they enter. -/
theorem Visits.mem_finished (h : Visits s visits w w' none) :
    ∀ p ∈ w'.entered, p ∈ w.entered ∨ p ∈ w'.finished := by
  generalize hn : (none : Option ReadFailure) = failure? at h
  induction h with
  | nil => exact fun p hp => .inl hp
  | again _ _ ih => simpa using ih hn
  | unreadable => simp at hn
  | broken => simp at hn
  | @finish name p rest w w₁ w' failure? source? _ _ _ h' ih ih' =>
    intro q hq
    have hsub : w₁.finished ++ [p] ⊆ w'.finished := h'.extends.finished
    rcases ih' hn q hq with hq | hq
    · rcases ih rfl q hq with hq | hq
      · rcases List.mem_append.1 hq with hq | hq
        · exact .inl hq
        · exact .inr (hsub (by simp [List.mem_singleton.1 hq]))
      · exact .inr (hsub (by simp [hq]))
    · exact .inr hq

/-- A walk from a start that has found all that the start leads to. -/
structure Complete (s : Scope) (start : String × Path) (w : Walk) : Prop where
  inOrder : InOrder s w
  requested : AsRequested s [start] w
  finished : w.entered ⊆ w.finished
  start : Visited w start

theorem Visits.complete {start : String × Path} (hv : Visits s [start] {} w none) :
    Complete s start w := by
  refine ⟨hv.inOrder (.empty s), hv.requested (fun _ => .start) (.empty s _), fun q hq => ?_,
    hv.visited (.empty s) _ (by simp)⟩
  exact (hv.mem_finished q hq).resolve_left (by simp)

namespace Complete

variable {start : String × Path}

theorem sound (h : Complete s start w) : Sound s w := h.inOrder.sound

theorem normal_of_mem_entered (h : Complete s start w) (hs : start.2.Normal) {p : Path}
    (hp : p ∈ w.entered) : p.Normal := by
  obtain ⟨n, hn⟩ := h.requested.entered p hp
  exact hn.normal (by simpa using hs)

/-- A normal path that was entered was finished under the same spelling. -/
theorem mem_finished (h : Complete s start w) (hs : start.2.Normal) {p : Path} (hp : p.Normal)
    (he : w.hasEntered p) : p ∈ w.finished := by
  obtain ⟨q, hq, he⟩ := hasEntered_iff.1 he
  rw [← (h.normal_of_mem_entered hs hq).eq_of_equiv hp he]
  exact h.finished hq

theorem target_mem_finished (h : Complete s start w) (hs : start.2.Normal) {p : Path}
    (hp : p ∈ w.finished) {text : String} (hr : s.files.read p = .ok text) {call : Lua.RequireCall}
    (hc : call ∈ Lua.requireCalls text) : s.target call.name ∈ w.finished :=
  h.mem_finished hs (s.normal_target _)
    (h.inOrder.hasEntered_of_requires hp ⟨text, hr, call, hc, Setoid.refl _⟩)

/-- All that is requested from the start was finished. -/
theorem mem_finished_of_requested (h : Complete s start w) (hs : start.2.Normal)
    {v : String × Path} (hv : s.Requested [start] v) : v.2 ∈ w.finished := by
  induction hv with
  | start hv =>
    rw [List.mem_singleton.1 hv]
    exact h.mem_finished hs hs h.start.1
  | call _ hr hc ih => exact h.target_mem_finished hs ih hr hc

end Complete

/-- The visit of a file that requires one library, which requires nothing. -/
theorem Visits.of_library {name lib text libText : String} {p q : Path}
    (hp : load s.files p = .ok (some text)) (hq : load s.files q = .ok (some libText))
    (hpending : pending s (some text) = [(lib, q)]) (hrest : pending s (some libText) = [])
    (hne : ¬ p ≈ q) :
    let w := (Walk.enter {} p).addModule s name p (some text)
    Visits s [(name, p)] {}
      ((((w.enter q).addModule s lib q (some libText)).finish q).finish p) none := by
  have hnew : ¬ ((Walk.enter {} p).addModule s name p (some text)).hasEntered q := by
    rw [hasEntered_addModule, hasEntered_enter]
    simpa [hasEntered_iff] using hne
  refine .finish (by simp [hasEntered_iff]) hp ?_ .nil
  rw [hpending]
  refine .finish hnew hq ?_ .nil
  rw [hrest]
  exact .nil

end Walk

/-- The files that an entry file leads to: itself, and what a file that it leads to requires, if
that can be read. -/
inductive Scope.Reached (s : Scope) (entry : Path) : Path → Prop
  | entry : s.Reached entry entry
  | call {p : Path} {text text' : String} {call : Lua.RequireCall} (h : s.Reached entry p)
      (hr : s.files.read p = .ok text) (hc : call ∈ Lua.requireCalls text)
      (ht : s.files.read (s.target call.name) = .ok text') : s.Reached entry (s.target call.name)

/-- A file that is requested from an entry file, and can be read, is reached from it. -/
theorem Scope.Requested.reached {s : Scope} {name : String} {entry : Path} {v : String × Path}
    (h : s.Requested [(name, entry)] v) {text : String} (hr : s.files.read v.2 = .ok text) :
    s.Reached entry v.2 := by
  induction h generalizing text with
  | start hv =>
    rw [List.mem_singleton.1 hv]
    exact .entry
  | call _ hv hc ih =>
    dsimp only at hr ⊢
    exact .call (ih hv) hv hc hr

/-! ## Resolved projects -/

namespace Project

section Resolve

variable {files : FileSystem} {settings : Settings} {entry : Path} {project : Project}

/-- **When a project is resolved, and which one it is.** -/
theorem resolve_eq_ok_iff :
    (resolve files settings entry).result = .ok project ↔
      files.has entry.normalize ∧ files.isFile entry.normalize ∧
        ∃ w, Walk.Visits (scope files settings entry.normalize)
            [(entry.normalize.stem, entry.normalize)] {} w none ∧
          project = ofWalk (scope files settings entry.normalize).base w ∧
          (∃ m, project.entry? = some m ∧ m.path ≈ entry.normalize) ∧
          (settings.strictCycles → project.cycles = []) := by
  constructor
  · intro h
    simp only [resolve] at h
    split at h
    · simp at h
    next hhas =>
    split at h
    · simp at h
    next hfile =>
    obtain ⟨_, -, h⟩ := Logged.result_bind_eq_ok_iff.1 h
    split at h
    · simp at h
    next hwalk =>
    split at h
    · simp at h
    next hentry =>
    obtain ⟨_, -, h⟩ := Logged.result_bind_eq_ok_iff.1 h
    split at h
    · simp at h
    next hcycles =>
    obtain ⟨_, -, h⟩ := Logged.result_bind_eq_ok_iff.1 h
    obtain rfl := Except.ok.inj h
    refine ⟨by simpa using hhas, by simpa using hfile, _,
      Walk.visits_iff.2 (Prod.ext rfl hwalk), rfl, by simpa [Option.any_eq_true] using hentry,
      fun hstrict => ?_⟩
    by_contra hne
    obtain ⟨members, rest, hc⟩ := List.exists_cons_of_ne_nil hne
    exact hcycles members rest hstrict hc
  · rintro ⟨hhas, hfile, w, hw, rfl, ⟨m, hm, he⟩, hstrict⟩
    have hwalk : walk files settings entry.normalize = (w, none) := Walk.visits_iff.1 hw
    have hentry : (some m).any (fun m => decide (m.path ≈ entry.normalize)) := by simpa using he
    simp only [resolve, hhas, hfile, hwalk, hm, hentry, Bool.not_true, Bool.false_eq_true, if_false]
    refine Logged.result_bind_eq_ok_iff.2 ⟨(), rfl, Logged.result_bind_eq_ok_iff.2 ⟨(), rfl, ?_⟩⟩
    split
    · next hs hc => simp [hstrict hs] at hc
    · rfl

section Complete

variable {s : Scope} {w : Walk} {name : String} {base p : Path}

theorem normal_of_mem_order (h : Walk.Complete s (name, entry) w) (hs : entry.Normal)
    (hp : p ∈ (ofWalk base w).order) : p.Normal := by
  obtain ⟨m, hm, rfl⟩ := List.mem_map.1 (h.sound.finished_found ((mem_order_ofWalk h.sound).1 hp).1)
  exact h.normal_of_mem_entered hs (h.sound.mem_entered hm)

/-- The modules of a complete walk are reached from its start. -/
theorem reached_of_mem_order (h : Walk.Complete s (name, entry) w)
    (hp : p ∈ (ofWalk base w).order) : s.Reached entry p := by
  obtain ⟨hp, text, hr⟩ := (mem_order_ofWalk h.sound).1 hp
  obtain ⟨m, hm, rfl⟩ := List.mem_map.1 (h.sound.finished_found hp)
  obtain ⟨n, hn⟩ := h.requested.entered _ (h.sound.mem_entered hm)
  exact hn.reached hr

/-- A complete walk finds all that is reached from a module. -/
theorem mem_order_of_reached (h : Walk.Complete s (name, entry) w) (hs : entry.Normal)
    (hentry : entry ∈ (ofWalk base w).order) (hp : s.Reached entry p) :
    p ∈ (ofWalk base w).order := by
  induction hp with
  | entry => exact hentry
  | call _ hr hc ht ih =>
    have hfin := ((mem_order_ofWalk h.sound).1 ih).1
    exact (mem_order_ofWalk h.sound).2 ⟨h.target_mem_finished hs hfin hr hc, _, ht⟩

end Complete

/-- **Discovery is exact.**  The modules of a resolved project are at different places, the last one
is the entry, they are the files that the entry leads to, and each has the text at its path and
requires the targets of the calls in that text. -/
theorem modules_of_resolve (h : (resolve files settings entry).result = .ok project) :
    let s := scope files settings entry.normalize
    project.base = s.base ∧
      project.modules.Pairwise (fun m n => ¬ m.path ≈ n.path) ∧
      project.order.getLast? = some entry.normalize ∧
      (∀ p, p ∈ project.order ↔ s.Reached entry.normalize p) ∧
      ∀ m ∈ project.modules, ∃ text, files.read m.path = .ok text ∧ m.source? = some text ∧
        m.requires = ((Lua.requireCalls text).map fun call => s.target call.name).eraseDups := by
  obtain ⟨_, _, w, hw, rfl, ⟨m, hm, he⟩, _⟩ := resolve_eq_ok_iff.1 h
  have hw := hw.complete
  have hs : entry.normalize.Normal := Path.normal_normalize entry
  have hlast : (ofWalk (scope files settings entry.normalize).base w).order.getLast?
      = some entry.normalize := by
    have hmem := List.mem_map_of_mem (f := (·.path)) (List.mem_of_getLast? hm)
    rw [order, List.getLast?_map, show List.getLast? _ = some m from hm, Option.map_some,
      (normal_of_mem_order hw hs hmem).eq_of_equiv hs he]
  refine ⟨base_ofWalk _ w, placedApart_modules _ hw.sound, hlast, fun p => ⟨reached_of_mem_order hw,
    mem_order_of_reached hw hs (List.mem_of_getLast? hlast)⟩, fun m hm => ?_⟩
  obtain ⟨hfound, _, hlocal⟩ := (mem_modules_ofWalk hw.sound).1 hm
  obtain ⟨text, hsource⟩ := Option.isSome_iff_exists.1 hlocal
  refine ⟨text, Walk.read_of_load (hsource ▸ hw.sound.loaded m hfound), hsource, ?_⟩
  rw [hw.sound.requires m hfound, hsource, Option.map_some, Option.getD_some,
    Scope.map_fst_children]

/-- A project, when the walk from its entry file is known and circles are allowed. -/
theorem resolve_of_visits {base : Path} {w : Walk} {m : Module} (hnormal : entry.normalize = entry)
    (hhas : files.has entry) (hfile : files.isFile entry)
    (hw : Walk.Visits (scope files settings entry) [(entry.stem, entry)] {} w none)
    (hbase : (scope files settings entry).base = base) (hlast : entry? (ofWalk base w) = some m)
    (hm : m.path = entry) (hlenient : settings.strictCycles = false) :
    (resolve files settings entry).result = .ok (ofWalk base w) := by
  refine resolve_eq_ok_iff.2 ?_
  rw [hnormal, hbase, hlenient]
  exact ⟨hhas, hfile, w, hw, rfl, ⟨m, hlast, Path.equiv_of_eq hm⟩, nofun⟩

end Resolve

/-! ## A project of two files -/

namespace Pair

/-- Two files, one of which requires the other. -/
def files : FileSystem :=
  Store.toFileSystem ⟨[(⟨"main.lua"⟩, "require 'util'"), (⟨"util.lua"⟩, "return 1")]⟩

def entry : Path := ⟨"main.lua"⟩

/-- The walk from the file that requires. -/
def walk : Walk :=
  let s := scope files {} entry
  let w := (Walk.enter {} entry).addModule s "main" entry (some "require 'util'")
  let w := (w.enter ⟨"util.lua"⟩).addModule s "util" ⟨"util.lua"⟩ (some "return 1")
  (w.finish ⟨"util.lua"⟩).finish entry

theorem normalize_entry : entry.normalize = entry := rfl

theorem visits_walk : Walk.Visits (scope files {} entry) [("main", entry)] {} walk none :=
  .of_library (by decide +kernel) (by decide +kernel) (by decide +kernel) (by decide +kernel)
    (by decide +kernel)

/-- The project of the two files. -/
def project : Project := ofWalk ⟨""⟩ walk

theorem resolve_eq : (resolve files {} entry).result = .ok project := by
  have hlast : project.entry? = some
      { name := "main", path := entry, source? := some "require 'util'",
        requires := [⟨"util.lua"⟩] } := by decide +kernel
  exact resolve_of_visits normalize_entry rfl rfl visits_walk rfl hlast rfl rfl

end Pair

theorem reached_pair :
    (resolve Pair.files {} Pair.entry).result = .ok Pair.project ∧
      ∀ p, p = ⟨"util.lua"⟩ ∨ p = ⟨"main.lua"⟩ ↔
        (scope Pair.files {} Pair.entry.normalize).Reached Pair.entry.normalize p := by
  have horder : Pair.project.order = [⟨"util.lua"⟩, ⟨"main.lua"⟩] := by decide +kernel
  refine ⟨Pair.resolve_eq, fun p => ?_⟩
  have hmem := (modules_of_resolve Pair.resolve_eq).2.2.2.1 p
  rwa [horder, List.mem_cons, List.mem_singleton] at hmem

end Project

end LuaBundle
