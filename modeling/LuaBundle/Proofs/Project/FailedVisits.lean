import LuaBundle.Proofs.Project.Failure
import LuaBundle.Proofs.Project.Machine

/-!
# What failed visits leave

A visit fails when a file that it comes to cannot be read, and all visits that wait for it fail with
it.  What they entered stays entered, and what they found stays found, but it is never finished.
Later visits go on from there, and may still add names to it.

* `Makes` and `Made` — a visit makes another one on its way, and so do visits one after the other;
  `Failed` says that a visit of a path that was made failed;
* `Makes.fails` — a visit that fails is the end of the visits that made it;
* `Failed.unfinished` — what failed is entered and never finished, and `Visits.exists_failed` says
  that nothing else stays unfinished;
* `Recorded` — what is true of the records of a walk, whatever failed;
* `order_ofWalk_eq` and `skipped_ofWalk_eq` — what a project takes from them;
* `recorded_of_visits` — all of this for any visits one after the other.
-/

set_option autoImplicit false

namespace LuaBundle

namespace Walk

variable {s : Scope} {w w' : Walk} {visits before after : List (String × Path)}
  {failure? : Option ReadFailure} {p : Path} {name : String}

/-! ## Visits that visits make -/

/-- The visit of a path from a walk makes a visit from another walk: itself, or one that is made by
a visit which follows from it.  These are made in turn, each after those before it did not fail. -/
inductive Makes (s : Scope) : String × Path → Walk → String × Path → Walk → Prop
  | self {v : String × Path} {w : Walk} : Makes s v w v w
  | child {name : String} {p : Path} {w w₁ u : Walk} {source? : Option String}
      {before after : List (String × Path)} {x v : String × Path} (hp : ¬ w.hasEntered p)
      (hl : load s.files p = .ok source?) (hpending : pending s source? = before ++ x :: after)
      (hbefore : Visits s before ((w.enter p).addModule s name p source?) w₁ none)
      (h : Makes s x w₁ v u) : Makes s (name, p) w v u

/-- A visit is made from a walk while some visits are made one after the other, whether or not the
visits before failed. -/
def Made (s : Scope) (visits : List (String × Path)) (v : String × Path) (u : Walk) : Prop :=
  ∃ before x after, visits = before ++ x :: after ∧ Makes s x (visitEach s before {}) v u

/-- A visit of a path failed while some visits were made one after the other. -/
def Failed (s : Scope) (visits : List (String × Path)) (p : Path) : Prop :=
  ∃ name u, Made s visits (name, p) u ∧ (visit s name p u).2.isSome

/-- The visits made one after the other all end well. -/
def NoneFails (s : Scope) (visits : List (String × Path)) : Prop :=
  ∀ before v after, visits = before ++ v :: after →
    (visit s v.1 v.2 (visitEach s before {})).2 = none

theorem Visits.append {w₁ : Walk} (h : Visits s before w w₁ none)
    (h' : Visits s after w₁ w' failure?) : Visits s (before ++ after) w w' failure? := by
  generalize hn : (none : Option ReadFailure) = end? at h
  induction h with
  | nil => exact h'
  | again hp _ ih => exact .again hp (ih h' hn)
  | unreadable => simp at hn
  | broken => simp at hn
  | finish hp hl h _ _ ih => exact .finish hp hl h (ih h' hn)

/-- After a visit that fails no further one is made. -/
theorem Visits.cons_of_fails {v : String × Path} {e : ReadFailure}
    (h : Visits s [v] w w' (some e)) (rest : List (String × Path)) :
    Visits s (v :: rest) w w' (some e) := by
  cases h with
  | again _ h => cases h
  | unreadable hp hl => exact .unreadable hp hl
  | broken hp hl h => exact .broken hp hl h
  | finish _ _ _ h => cases h

/-- **A visit that fails is the end of the visits that made it**: they leave the same walk. -/
theorem Makes.fails {x v : String × Path} {u : Walk} {e : ReadFailure} (h : Makes s x w v u)
    (hfails : Visits s [v] u w' (some e)) : Visits s [x] w w' (some e) := by
  induction h with
  | self => exact hfails
  | child hp hl hpending hbefore _ ih =>
    refine .broken hp hl ?_
    rw [hpending]
    exact hbefore.append ((ih hfails).cons_of_fails _)

theorem Makes.sound {x v : String × Path} {u : Walk} (h : Makes s x w v u) (hw : Sound s w) :
    Sound s u := by
  induction h with
  | self => exact hw
  | child hp hl _ hbefore _ ih => exact ih (hbefore.sound (hw.addModule hp _ hl))

/-! ## What failed is not finished -/

/-- A path whose visit fails is entered and not finished. -/
theorem Visits.unfinished_of_fails {e : ReadFailure} (h : Visits s [(name, p)] w w' (some e))
    (hw : Sound s w) : p ∈ w'.entered ∧ ∀ q ∈ w'.finished, ¬ q ≈ p := by
  cases h with
  | again _ h => cases h
  | unreadable hp _ =>
    refine ⟨by simp, fun q hq he => hp ?_⟩
    obtain ⟨r, hr, hrq⟩ := hasEntered_iff.1 (hw.hasEntered_of_mem_finished hq)
    exact hasEntered_iff.2 ⟨r, hr, Setoid.trans hrq he⟩
  | broken hp _ h => exact ⟨h.mem_entered_of_addModule, h.not_equiv_of_mem_finished hw hp⟩
  | finish _ _ _ h => cases h

/-- What is entered and not finished stays so. -/
theorem Extends.unfinished (h : Extends w w') (hp : p ∈ w.entered)
    (hn : ∀ q ∈ w.finished, ¬ q ≈ p) : p ∈ w'.entered ∧ ∀ q ∈ w'.finished, ¬ q ≈ p := by
  refine ⟨h.entered hp, fun q hq he => ?_⟩
  rcases h.fresh q hq with hq | hq
  · exact hn q hq he
  · exact hq (hasEntered_iff.2 ⟨p, hp, Setoid.symm he⟩)

theorem extends_visitEach (s : Scope) (visits : List (String × Path)) (w : Walk) :
    Extends w (w.visitEach s visits) := by
  induction visits generalizing w with
  | nil => exact .refl w
  | cons v visits ih => exact (visits_visit s v.1 v.2 w).extends.trans (ih _)

theorem sound_visitEach (s : Scope) (visits : List (String × Path)) :
    Sound s (visitEach s visits {}) :=
  ((InOrder.empty s).visitEach visits).sound

theorem visitEach_append (s : Scope) (before after : List (String × Path)) (w : Walk) :
    w.visitEach s (before ++ after) = (w.visitEach s before).visitEach s after :=
  List.foldl_append

/-- A visit that fails makes one of the visits fail that are made one after the other. -/
theorem Failed.exists_fails (h : Failed s visits p) :
    ∃ before x after w' e, visits = before ++ x :: after ∧
      visit s x.1 x.2 (visitEach s before {}) = (w', some e) ∧ p ∈ w'.entered ∧
      ∀ q ∈ w'.finished, ¬ q ≈ p := by
  obtain ⟨name, u, ⟨before, x, after, hvisits, hmakes⟩, hsome⟩ := h
  obtain ⟨e, he⟩ := Option.isSome_iff_exists.1 hsome
  have hv := visits_visit s name p u
  rw [he] at hv
  exact ⟨before, x, after, _, e, hvisits, visits_iff.1 (hmakes.fails hv),
    hv.unfinished_of_fails (hmakes.sound (sound_visitEach s before))⟩

/-- **What failed is entered and never finished**, whatever is visited later. -/
theorem Failed.unfinished (h : Failed s visits p) :
    p ∈ (visitEach s visits {}).entered ∧ ∀ q ∈ (visitEach s visits {}).finished, ¬ q ≈ p := by
  obtain ⟨before, x, after, w', e, rfl, hvisit, hp, hn⟩ := h.exists_fails
  have hafter : visitEach s (before ++ x :: after) {} = w'.visitEach s after := by
    rw [visitEach_append]
    exact congrArg (visitEach s after ·.1) hvisit
  rw [hafter]
  exact (extends_visitEach s after w').unfinished hp hn

/-! ## What did not fail is finished -/

/-- A visit is made from a walk while some visits are made until one fails. -/
def MakesIn (s : Scope) (visits : List (String × Path)) (w : Walk) (v : String × Path) (u : Walk) :
    Prop :=
  ∃ before x after w₁, visits = before ++ x :: after ∧ Visits s before w w₁ none ∧
    Makes s x w₁ v u

theorem MakesIn.first {x v : String × Path} {u : Walk} (h : Makes s x w v u)
    (rest : List (String × Path)) : MakesIn s (x :: rest) w v u :=
  ⟨[], x, rest, w, rfl, .nil, h⟩

theorem MakesIn.cons {x v : String × Path} {rest : List (String × Path)} {w₁ u : Walk}
    (h : MakesIn s rest w₁ v u) (hx : Visits s [x] w w₁ none) : MakesIn s (x :: rest) w v u := by
  obtain ⟨before, y, after, w₂, rfl, hbefore, hmakes⟩ := h
  exact ⟨x :: before, y, after, w₂, rfl, hx.append hbefore, hmakes⟩

theorem MakesIn.child {v : String × Path} {u : Walk} {source? : Option String}
    (h : MakesIn s (pending s source?) ((w.enter p).addModule s name p source?) v u)
    (hp : ¬ w.hasEntered p) (hl : load s.files p = .ok source?) : Makes s (name, p) w v u := by
  obtain ⟨before, x, after, w₁, hpending, hbefore, hmakes⟩ := h
  exact .child hp hl hpending hbefore hmakes

/-- **What visits enter they finish, unless its visit fails.** -/
theorem Visits.exists_failed (h : Visits s visits w w' failure?) :
    ∀ p ∈ w'.entered, p ∈ w.entered ∨ p ∈ w'.finished ∨
      ∃ name u, MakesIn s visits w (name, p) u ∧ (visit s name p u).2.isSome := by
  induction h with
  | nil => exact fun p hp => .inl hp
  | again hq h ih =>
    intro p hp
    rcases ih p hp with hp | hp | ⟨n, u, hmakes, hfails⟩
    · exact .inl (by simpa using hp)
    · exact .inr (.inl hp)
    · exact .inr (.inr ⟨n, u, hmakes.cons (.again hq .nil), hfails⟩)
  | @unreadable name q rest w e hq hl =>
    intro p hp
    rcases List.mem_append.1 hp with hp | hp
    · exact .inl hp
    · obtain rfl := List.mem_singleton.1 hp
      refine .inr (.inr ⟨name, w, .first .self rest, ?_⟩)
      rw [visits_iff.1 (.unreadable hq hl)]
      rfl
  | @broken name q rest w w' e source? hq hl h ih =>
    intro p hp
    rcases ih p hp with hp | hp | ⟨n, u, hmakes, hfails⟩
    · rcases List.mem_append.1 hp with hp | hp
      · exact .inl hp
      · obtain rfl := List.mem_singleton.1 hp
        refine .inr (.inr ⟨name, w, .first .self rest, ?_⟩)
        rw [visits_iff.1 (.broken hq hl h)]
        rfl
    · exact .inr (.inl hp)
    · exact .inr (.inr ⟨n, u, .first (hmakes.child hq hl) rest, hfails⟩)
  | @finish name q rest w w₁ w' failure? source? hq hl h h' ih ih' =>
    intro p hp
    have hsub : (w₁.finish q).finished ⊆ w'.finished := h'.extends.finished
    rcases ih' p hp with hp | hp | ⟨n, u, hmakes, hfails⟩
    · rcases ih p hp with hp | hp | ⟨n, u, hmakes, hfails⟩
      · rcases List.mem_append.1 hp with hp | hp
        · exact .inl hp
        · exact .inr (.inl (hsub (List.mem_append_right _ hp)))
      · exact .inr (.inl (hsub (List.mem_append_left _ hp)))
      · exact .inr (.inr ⟨n, u, .first (hmakes.child hq hl) rest, hfails⟩)
    · exact .inr (.inl hp)
    · exact .inr (.inr ⟨n, u, hmakes.cons (.finish hq hl h .nil), hfails⟩)

theorem Failed.append (h : Failed s visits p) (more : List (String × Path)) :
    Failed s (visits ++ more) p := by
  obtain ⟨name, u, ⟨before, x, after, rfl, hmakes⟩, hfails⟩ := h
  exact ⟨name, u, ⟨before, x, after ++ more, by simp, hmakes⟩, hfails⟩

/-- **What is entered is finished or failed.** -/
theorem mem_entered_iff (s : Scope) (visits : List (String × Path)) (p : Path) :
    p ∈ (visitEach s visits {}).entered ↔
      p ∈ (visitEach s visits {}).finished ∨ Failed s visits p := by
  have hs := sound_visitEach s visits
  refine ⟨?_, fun h => h.elim (fun hp => hs.found.subset (hs.finished_found hp)) (·.unfinished.1)⟩
  induction visits using List.reverseRecOn with
  | nil => simp [visitEach]
  | append_singleton visits v ih =>
    have hv := visits_visit s v.1 v.2 (visitEach s visits {})
    have hlast : visitEach s (visits ++ [v]) {} = (visit s v.1 v.2 (visitEach s visits {})).1 :=
      visitEach_append s visits [v] {}
    rw [hlast]
    intro hp
    rcases hv.exists_failed p hp with hp | hp |
      ⟨name, u, ⟨before, x, after, w₁, he, hb, hm⟩, hfails⟩
    · rcases ih (sound_visitEach s visits) hp with hp | hp
      · exact .inl (hv.extends.finished hp)
      · exact .inr (hp.append [v])
    · exact .inl hp
    · obtain ⟨rfl, rfl, rfl⟩ : before = [] ∧ x = v ∧ after = [] := by
        cases before with
        | nil =>
          obtain ⟨rfl, rfl⟩ := List.cons.inj he
          exact ⟨rfl, rfl, rfl⟩
        | cons _ _ => simp at he
      cases hb
      exact .inr ⟨name, u, ⟨visits, x, [], rfl, hm⟩, hfails⟩

/-- **All that is entered is finished exactly if no visit failed.** -/
theorem entered_eq_finished_iff (s : Scope) (visits : List (String × Path)) :
    (∀ p, p ∈ (visitEach s visits {}).entered ↔ p ∈ (visitEach s visits {}).finished) ↔
      NoneFails s visits := by
  constructor
  · rintro h before v after rfl
    by_contra hne
    have hfailed : Failed s (before ++ v :: after) v.2 :=
      ⟨v.1, _, ⟨before, v, after, rfl, .self⟩, Option.isSome_iff_ne_none.2 hne⟩
    obtain ⟨hp, hn⟩ := hfailed.unfinished
    exact hn v.2 ((h v.2).1 hp) (Setoid.refl _)
  · intro h p
    refine (mem_entered_iff s visits p).trans (or_iff_left fun hfailed => ?_)
    obtain ⟨before, x, after, w', e, hvisits, hvisit, _⟩ := hfailed.exists_fails
    have hnone := h before x after hvisits
    rw [hvisit] at hnone
    cases hnone

/-! ## The records -/

/-- What is true of the records of a walk, whether or not visits failed. -/
structure Recorded (w : Walk) : Prop where
  finished_apart : w.finished.Pairwise (¬ · ≈ ·)
  finished_found : w.finished ⊆ w.found.map (·.path)
  found_entered : w.found.map (·.path) ⊆ w.entered
  /-- What was found is recorded at its path, and nothing else is. -/
  found_at_path : ∀ m ∈ w.found, w.module? m.path = some m
  names_apart : ∀ m ∈ w.found, m.names.Nodup
  requires_entered : ∀ m ∈ w.found, m.path ∈ w.finished → ∀ q ∈ m.requires, w.hasEntered q

theorem nodup_names_visitEach (s : Scope) (visits : List (String × Path)) :
    ∀ m ∈ (visitEach s visits {}).found, m.names.Nodup := by
  induction visits using List.reverseRecOn with
  | nil => simp [visitEach]
  | append_singleton visits v ih =>
    rw [visitEach_append]
    exact (visits_visit s v.1 v.2 _).nodup_names (sound_visitEach s visits) ih

theorem Sound.exists_pending_of_mem_requires (h : Sound s w) {m : Module} (hm : m ∈ w.found)
    {q : Path} (hq : q ∈ m.requires) : ∃ v ∈ pending s m.source?, v.2 = q := by
  rw [h.requires m hm] at hq
  cases hsource : m.source? with
  | none => simp [hsource] at hq
  | some text =>
    rw [hsource, Option.map_some, Option.getD_some, Scope.map_fst_children,
      List.mem_eraseDups] at hq
    obtain ⟨call, hcall, rfl⟩ := List.mem_map.1 hq
    exact ⟨_, mem_pending.2 ⟨call, hcall, rfl⟩, rfl⟩

theorem recorded_visitEach (s : Scope) (visits : List (String × Path)) :
    Recorded (visitEach s visits {}) := by
  have horder := (InOrder.empty s).visitEach visits
  have hs := horder.sound
  refine ⟨hs.finished, hs.finished_found, hs.found.subset, fun m hm => ?_,
    nodup_names_visitEach s visits, fun m hm hp q hq => ?_⟩
  · exact hs.module?_eq_some_iff.2 ⟨hm, Setoid.refl _⟩
  · obtain ⟨v, hv, rfl⟩ := hs.exists_pending_of_mem_requires hm hq
    exact (horder.visited m.path hp m.source? (hs.loaded m hm) v hv).1

end Walk

/-! ## What a project takes from the records -/

namespace Project

variable {s : Scope} {base : Path} {w : Walk}

theorem isLocal_eq (h : Walk.Sound s w) {m : Module} (hm : m ∈ w.found) :
    m.isLocal = (s.files.read m.path).isOk ∧ (!m.isLocal) = s.files.missesAt m.path := by
  have hload := h.loaded m hm
  unfold Walk.load at hload
  unfold FileSystem.missesAt
  rw [Module.isLocal]
  split at hload
  · next text hread =>
    rw [hread, ← Except.ok.inj hload]
    exact ⟨rfl, rfl⟩
  · next e hread =>
    split at hload
    · next hmissing =>
      rw [hread, ← Except.ok.inj hload]
      exact ⟨rfl, hmissing.symm⟩
    · cases hload

/-- **The modules are at the finished paths that can be read**, in the order of finishing. -/
theorem order_ofWalk_eq (base : Path) (h : Walk.Sound s w) :
    (ofWalk base w).order = w.finished.filter fun p => (s.files.read p).isOk := by
  have hlocal : ∀ m ∈ w.finished.filterMap w.module?,
      m.isLocal = (s.files.read m.path).isOk := fun m hm =>
    (isLocal_eq h ((mem_filterMap_module? h).1 hm).1).1
  rw [order, ofWalk, List.filter_congr hlocal]
  conv => rhs; rw [← map_path_filterMap_module? h, List.filter_map]
  rfl

/-- The names of what was found at a path. -/
def namesAt (w : Walk) (p : Path) : List String :=
  ((w.module? p).map (·.names)).getD []

/-- **The skipped names are those of the finished paths that are missing**, in that order. -/
theorem skipped_ofWalk_eq (base : Path) (h : Walk.Sound s w) :
    (ofWalk base w).skipped = (w.finished.filter s.files.missesAt).flatMap (namesAt w) := by
  have hremote : ∀ m ∈ w.finished.filterMap w.module?,
      (!m.isLocal) = s.files.missesAt m.path := fun m hm =>
    (isLocal_eq h ((mem_filterMap_module? h).1 hm).1).2
  have hnames : ∀ m ∈ (w.finished.filterMap w.module?).filter (s.files.missesAt ·.path),
      m.names = namesAt w m.path := by
    intro m hm
    have hm := ((mem_filterMap_module? h).1 (List.mem_filter.1 hm).1).1
    rw [namesAt, h.module?_eq_some_iff.2 ⟨hm, Setoid.refl _⟩]
    rfl
  rw [ofWalk, List.filter_congr hremote, List.flatMap_congr hnames]
  conv => rhs; rw [← map_path_filterMap_module? h, List.filter_map, List.flatMap_map]
  rfl

/-- **What visits leave, whichever of them fail.**  The records agree with each other.  What was
entered is finished or its visit failed, never both, and so all of it is finished exactly if no
visit failed.  The project has a module for each finished path that can be read, with its text, and the
names of each finished path that is missing; there are no others, and what failed has no part in
it. -/
theorem recorded_of_visits (s : Scope) (visits : List (String × Path)) :
    let w := Walk.visitEach s visits {}
    let project := ofWalk s.base w
    Walk.Recorded w ∧
      (∀ p, p ∈ w.entered ↔ p ∈ w.finished ∨ Walk.Failed s visits p) ∧
      (∀ p, Walk.Failed s visits p → ∀ q ∈ w.finished, ¬ q ≈ p) ∧
      ((∀ p, p ∈ w.entered ↔ p ∈ w.finished) ↔ Walk.NoneFails s visits) ∧
      project.order = (w.finished.filter fun p => (s.files.read p).isOk) ∧
      (∀ m ∈ project.modules, s.files.read m.path = .ok m.source) ∧
      project.skipped = (w.finished.filter s.files.missesAt).flatMap (namesAt w) ∧
      (∀ p ∈ w.finished, (s.files.read p).isOk = !s.files.missesAt p) ∧
      ∀ p, Walk.Failed s visits p → ∀ m ∈ project.modules, ¬ m.path ≈ p := by
  intro w project
  have hs : Walk.Sound s w := Walk.sound_visitEach s visits
  refine ⟨Walk.recorded_visitEach s visits, Walk.mem_entered_iff s visits,
    fun p h => h.unfinished.2, Walk.entered_eq_finished_iff s visits, order_ofWalk_eq s.base hs,
    fun m hm => (read_of_mem_modules hs hm).2, skipped_ofWalk_eq s.base hs, fun p hp => ?_,
    fun p h m hm => h.unfinished.2 m.path (read_of_mem_modules hs hm).1⟩
  obtain ⟨m, hm, rfl⟩ := List.mem_map.1 (hs.finished_found hp)
  obtain ⟨hlocal, hremote⟩ := isLocal_eq hs hm
  rw [← hlocal, ← hremote, Bool.not_not]

/-- The first visit fails below `main.lua`.  The second one finds it entered and adds a name, and
the third one finds entered what it requires.  The walk is worked out step by step. -/
example :
    let store := Store.ofList [(⟨"main.lua"⟩, "require 'util' require 'gone'"),
      (⟨"util.lua"⟩, "require 'denied'"), (⟨"last.lua"⟩, "require 'main' require 'gone'")]
    let files := store.toFileSystem.withErrors [(⟨"denied.lua"⟩, ⟨.permissionDenied, "denied"⟩)]
    let s : Scope := { files, base := ⟨""⟩, extension := "lua" }
    let w := (Walk.Machine.run s 100 (.start
      [("main", ⟨"main.lua"⟩), ("start", ⟨"main.lua"⟩), ("last", ⟨"last.lua"⟩)])).1.walk
    w.entered = [⟨"main.lua"⟩, ⟨"util.lua"⟩, ⟨"denied.lua"⟩, ⟨"last.lua"⟩, ⟨"gone.lua"⟩] ∧
      w.found.map (·.names) = [["main", "start"], ["util"], ["last"], ["gone"]] ∧
      w.finished = [⟨"gone.lua"⟩, ⟨"last.lua"⟩] ∧
      (ofWalk s.base w).order = [⟨"last.lua"⟩] ∧ (ofWalk s.base w).skipped = ["gone"] := by
  decide +kernel

end Project

end LuaBundle
