import LuaBundle.Proofs.Project.Visits
import Mathlib.Logic.Relation

/-!
# The order in which files are finished

A file is finished after all that it requires was visited.  What it requires may still be unfinished
then, if it lies on the way to the file: but in that case it leads back to the file, and it is this
that makes a circle of requires.

* `Visits.reaches` — what visits finish is led to by the visited paths, through finished files;
* `InOrder` and `Visits.inOrder` — a finished file has visited all that it requires, and whatever it
  requires is finished before it or leads to it through finished files.

The visits may fail: a file on the way to a failure is never finished, so it is in nobody's order.
-/

set_option autoImplicit false

namespace LuaBundle

open Relation

/-- A file requires a path. -/
def Scope.Requires (s : Scope) (p q : Path) : Prop :=
  ∃ text, s.files.read p = .ok text ∧ ∃ call ∈ Lua.requireCalls text, s.target call.name ≈ q

/-- One of some files requires another. -/
def Scope.RequiresAmong (s : Scope) (ps : List Path) (p q : Path) : Prop :=
  p ∈ ps ∧ q ∈ ps ∧ s.Requires p q

namespace Walk

variable {s : Scope} {w w' : Walk} {visits : List (String × Path)} {failure? : Option ReadFailure}

theorem requires_of_mem_pending {p : Path} {source? : Option String}
    (hl : load s.files p = .ok source?) {v : String × Path} (hv : v ∈ pending s source?) :
    s.Requires p v.2 := by
  cases source? with
  | none => simp [pending] at hv
  | some text =>
    obtain ⟨call, hc, hv⟩ := mem_pending.1 hv
    exact ⟨text, read_of_load hl, call, hc, Path.equiv_of_eq (by rw [hv])⟩

theorem exists_pending_of_requires {p q : Path} (h : s.Requires p q) :
    ∃ source?, load s.files p = .ok source? ∧ ∃ v ∈ pending s source?, v.2 ≈ q := by
  obtain ⟨text, hr, call, hc, hq⟩ := h
  have hv : (call.name, s.target call.name) ∈ pending s (some text) :=
    mem_pending.2 ⟨call, hc, rfl⟩
  exact ⟨some text, by rw [load, hr], _, hv, by simpa only using hq⟩

theorem reflTransGen_mono {ps qs : List Path} (h : ps ⊆ qs) {p q : Path}
    (hr : ReflTransGen (s.RequiresAmong ps) p q) : ReflTransGen (s.RequiresAmong qs) p q :=
  ReflTransGen.mono (fun _ _ ⟨ha, hb, he⟩ => ⟨h ha, h hb, he⟩) _ _ hr

/-- What leads to one of some files is one of them. -/
theorem mem_of_reflTransGen {ps : List Path} {p q : Path}
    (hr : ReflTransGen (s.RequiresAmong ps) p q) (hq : q ∈ ps) : p ∈ ps := by
  rcases hr.cases_head with rfl | ⟨_, he, _⟩
  · exact hq
  · exact he.1

/-- A finished file leads to what was finished by the visits that followed from it. -/
theorem reflTransGen_of_pending {ps qs : List Path} (hsub : ps ⊆ qs) {p q : Path} (hp : p ∈ qs)
    {source? : Option String} (hl : load s.files p = .ok source?) (hq : q ∈ ps)
    {v : String × Path} (hv : v ∈ pending s source?)
    (hr : ReflTransGen (s.RequiresAmong ps) v.2 q) : ReflTransGen (s.RequiresAmong qs) p q :=
  .head ⟨hp, hsub (mem_of_reflTransGen hr hq), requires_of_mem_pending hl hv⟩
    (reflTransGen_mono hsub hr)

/-- **What visits finish is led to by the visited paths**, through finished files. -/
theorem Visits.reaches (h : Visits s visits w w' none) :
    ∀ q ∈ w'.finished, q ∈ w.finished ∨
      ∃ v ∈ visits, ReflTransGen (s.RequiresAmong w'.finished) v.2 q := by
  generalize hn : (none : Option ReadFailure) = failure? at h
  induction h with
  | nil => exact fun q hq => .inl hq
  | @again name p rest w w' failure? hp h ih =>
    intro q hq
    rcases ih hn q hq with hq | ⟨v, hv, hr⟩
    · exact .inl (by simpa using hq)
    · exact .inr ⟨v, List.mem_cons_of_mem _ hv, hr⟩
  | unreadable => simp at hn
  | broken => simp at hn
  | @finish name p rest w w₁ w' failure? source? hp hl h h' ih ih' =>
    intro q hq
    have hsub : w₁.finished ++ [p] ⊆ w'.finished := h'.extends.finished
    rcases ih' hn q hq with hq | ⟨v, hv, hr⟩
    · rcases List.mem_append.1 hq with hq | hq
      · rcases ih rfl q hq with hw | ⟨v, hv, hr⟩
        · exact .inl hw
        · exact .inr ⟨(name, p), List.mem_cons_self,
            reflTransGen_of_pending (fun _ hx => hsub (by simp [hx])) (hsub (by simp)) hl hq hv hr⟩
      · rw [List.mem_singleton.1 hq]
        exact .inr ⟨(name, p), List.mem_cons_self, .refl⟩
    · exact .inr ⟨v, List.mem_cons_of_mem _ hv, hr⟩

/-- A finished file has visited all that it requires, and a file that is finished after one that
requires it leads to that one. -/
structure InOrder (s : Scope) (w : Walk) : Prop where
  sound : Sound s w
  visited : ∀ p ∈ w.finished, ∀ source?, load s.files p = .ok source? →
    ∀ v ∈ pending s source?, Visited w v
  finished : w.finished.Pairwise fun p q =>
    s.Requires p q → ReflTransGen (s.RequiresAmong w.finished) q p

theorem InOrder.empty (s : Scope) : InOrder s {} := ⟨.empty s, by simp, .nil⟩

theorem InOrder.hasEntered_of_requires (h : InOrder s w) {p q : Path} (hp : p ∈ w.finished)
    (hr : s.Requires p q) : w.hasEntered q := by
  obtain ⟨source?, hl, v, hv, he⟩ := exists_pending_of_requires hr
  obtain ⟨r, hr, hrv⟩ := hasEntered_iff.1 (h.visited p hp source? hl v hv).1
  exact hasEntered_iff.2 ⟨r, hr, Setoid.trans hrv he⟩

/-- The one change that adds to the order. -/
theorem InOrder.finish {w₁ : Walk} (hw : InOrder s w) {name : String} {p : Path}
    {source? : Option String} (hp : ¬ w.hasEntered p) (hl : load s.files p = .ok source?)
    (h : Visits s (pending s source?) ((w.enter p).addModule s name p source?) w₁ none)
    (hw₁ : InOrder s w₁) : InOrder s (w₁.finish p) where
  sound := h.sound_finish hw.sound hp hw₁.sound
  visited q hq source?' hl' v hv := by
    rcases List.mem_append.1 hq with hq | hq
    · exact hw₁.visited q hq source?' hl' v hv
    · rw [List.mem_singleton.1 hq, hl, Except.ok.injEq] at hl'
      subst hl'
      exact h.visited (hw.sound.addModule hp _ hl) v hv
  finished := by
    have hsub : w₁.finished ⊆ w₁.finished ++ [p] := List.subset_append_left _ _
    rw [finished_finish, List.pairwise_append]
    refine ⟨hw₁.finished.imp fun hr hq => reflTransGen_mono hsub (hr hq),
      List.pairwise_singleton _ _, fun q hq r hr hreq => ?_⟩
    obtain rfl := List.mem_singleton.1 hr
    rcases h.reaches q hq with hold | ⟨v, hv, hpath⟩
    -- what was finished before `r` was entered cannot require it
    · exact absurd (hw.hasEntered_of_requires hold hreq) hp
    · exact reflTransGen_of_pending hsub (by simp) hl hq hv hpath

theorem Visits.inOrder (h : Visits s visits w w' failure?) (hw : InOrder s w) : InOrder s w' := by
  refine h.preserves ?_ ?_ ?_ (fun hp hl hw h hw₁ => hw.finish hp hl h hw₁) hw
  · intro w name p _ hw
    refine ⟨hw.sound.addName _ _, fun q hq source? hl v hv => ?_, by simpa using hw.finished⟩
    rw [finished_addName] at hq
    exact (hw.visited q hq source? hl v hv).addName _ _
  · intro w p hp hw
    refine ⟨hw.sound.enter hp, fun q hq source? hl v hv => ?_, hw.finished⟩
    obtain ⟨he, hn⟩ := hw.visited q hq source? hl v hv
    exact ⟨(hasEntered_enter _ _ _).2 (.inl he), hn⟩
  · intro w name p source? hp hl hw
    exact ⟨hw.sound.addModule hp _ hl,
      fun q hq source? hl v hv => (hw.visited q hq source? hl v hv).addModule hp _ _, hw.finished⟩

end Walk

end LuaBundle
