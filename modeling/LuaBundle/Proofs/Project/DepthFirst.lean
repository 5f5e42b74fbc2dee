import LuaBundle.Proofs.Project.Names

/-!
# Depth-first order

The order in which a walk enters paths is determined by what the files call: it is the depth-first
order from the start.  A walk that does not fail enters all of it, and one that fails stops at a
path of it.

* `DepthFirst` — going through a list depth-first, as a relation; `DepthFirst.mem_iff` says that
  what is met is what the start leads to;
* `DepthFirst.eraseDups_iff` — elements that come again are met once, so it is all the same that a
  walk groups calls by path;
* `Scope.calledPaths` — what a file calls;
* `Visits.entered_of_closed` — a walk enters what its start leads to;
* `Visits.depthFirst` and `Visits.isPrefix_of_depthFirst` — a walk enters paths in this order;
* `Visits.exists_entered_eq` — all that a walk enters can be loaded, but for the path where it
  fails, which comes last;
* `Scope.exists_depthFirst` — the order exists, whatever can be read: the walk through the files in
  which nothing but missing files goes wrong enters it.
-/

set_option autoImplicit false

namespace LuaBundle

open Relation

/-- Going through a list depth-first: an element that was not seen is followed by what comes next
after it, and then by the rest of the list. -/
inductive DepthFirst {α : Type} (next : α → List α) : List α → List α → List α → Prop
  | nil {seen : List α} : DepthFirst next seen [] seen
  /-- The element was seen before. -/
  | again {a : α} {rest seen order : List α} (ha : a ∈ seen)
      (h : DepthFirst next seen rest order) : DepthFirst next seen (a :: rest) order
  /-- The element is new. -/
  | enter {a : α} {rest seen mid order : List α} (ha : a ∉ seen)
      (h : DepthFirst next (seen ++ [a]) (next a) mid) (h' : DepthFirst next mid rest order) :
      DepthFirst next seen (a :: rest) order

namespace DepthFirst

variable {α : Type} {next : α → List α} {a b : α} {l rest seen order order' : List α}

theorem isPrefix (h : DepthFirst next seen l order) : seen <+: order := by
  induction h with
  | nil => exact List.prefix_rfl
  | again _ _ ih => exact ih
  | enter _ _ _ ih ih' => exact ((List.prefix_append _ _).trans ih).trans ih'

theorem cons_iff_of_mem (ha : a ∈ seen) :
    DepthFirst next seen (a :: rest) order ↔ DepthFirst next seen rest order := by
  refine ⟨fun h => ?_, .again ha⟩
  cases h with
  | again _ h => exact h
  | enter hn _ _ => exact absurd ha hn

theorem cons_iff_of_not_mem (ha : a ∉ seen) :
    DepthFirst next seen (a :: rest) order ↔
      ∃ mid, DepthFirst next (seen ++ [a]) (next a) mid ∧ DepthFirst next mid rest order := by
  constructor
  · intro h
    cases h with
    | again hm _ => exact absurd hm ha
    | enter _ h h' => exact ⟨_, h, h'⟩
  · rintro ⟨mid, h, h'⟩
    exact .enter ha h h'

/-- There is one depth-first order. -/
theorem unique (h : DepthFirst next seen l order) (h' : DepthFirst next seen l order') :
    order = order' := by
  induction h generalizing order' with
  | nil =>
    cases h'
    rfl
  | again ha _ ih => exact ih ((cons_iff_of_mem ha).1 h')
  | enter ha _ _ ih ih' =>
    obtain ⟨mid, hmid, hrest⟩ := (cons_iff_of_not_mem ha).1 h'
    obtain rfl := ih hmid
    exact ih' hrest

/-! ## Elements that come again -/

section EraseDups

variable [BEq α] [LawfulBEq α]

/-- What was seen can be left out. -/
theorem filter_iff (ha : a ∈ seen) :
    DepthFirst next seen (l.filter fun b => !b == a) order ↔ DepthFirst next seen l order := by
  induction l generalizing seen with
  | nil => rfl
  | cons b l ih =>
    by_cases hb : b = a
    · rw [List.filter_cons_of_neg (by simp [hb]), hb, cons_iff_of_mem ha, ih ha]
    rw [List.filter_cons_of_pos (by simpa using hb)]
    by_cases hseen : b ∈ seen
    · rw [cons_iff_of_mem hseen, cons_iff_of_mem hseen, ih ha]
    · rw [cons_iff_of_not_mem hseen, cons_iff_of_not_mem hseen]
      refine exists_congr fun mid => and_congr_right fun h => ih ?_
      exact h.isPrefix.subset (List.mem_append_left _ ha)

/-- **An element that comes again is met once.** -/
theorem eraseDups_iff :
    DepthFirst next seen l.eraseDups order ↔ DepthFirst next seen l order := by
  induction h : l.length using Nat.strongRecOn generalizing l seen with
  | _ n ih =>
    cases l with
    | nil => rfl
    | cons a l =>
      have hlt : (l.filter fun b => !b == a).length < n := by
        rw [← h, List.length_cons]
        exact Nat.lt_succ_of_le (List.length_filter_le _ _)
      rw [List.eraseDups_cons]
      by_cases ha : a ∈ seen
      · rw [cons_iff_of_mem ha, cons_iff_of_mem ha, ih _ hlt rfl, filter_iff ha]
      · rw [cons_iff_of_not_mem ha, cons_iff_of_not_mem ha]
        refine exists_congr fun mid => and_congr_right fun hmid => ?_
        rw [ih _ hlt rfl, filter_iff (hmid.isPrefix.subset (by simp))]

end EraseDups

/-! ## What is met -/

/-- What is met is led to by the list. -/
theorem exists_reflTransGen (h : DepthFirst next seen l order) :
    ∀ b ∈ order, b ∈ seen ∨ ∃ a ∈ l, ReflTransGen (fun a b => b ∈ next a) a b := by
  induction h with
  | nil => exact fun b hb => .inl hb
  | again _ _ ih =>
    intro b hb
    exact (ih b hb).imp_right fun ⟨c, hc, hr⟩ => ⟨c, List.mem_cons_of_mem _ hc, hr⟩
  | @enter a rest seen mid order _ _ _ ih ih' =>
    intro b hb
    rcases ih' b hb with hb | ⟨c, hc, hr⟩
    · rcases ih b hb with hb | ⟨c, hc, hr⟩
      · rcases List.mem_append.1 hb with hb | hb
        · exact .inl hb
        · exact .inr ⟨a, List.mem_cons_self, List.mem_singleton.1 hb ▸ .refl⟩
      · exact .inr ⟨a, List.mem_cons_self, .head hc hr⟩
    · exact .inr ⟨c, List.mem_cons_of_mem _ hc, hr⟩

/-- The list is met, and what comes next after anything that is met. -/
theorem closed (h : DepthFirst next seen l order) :
    l ⊆ order ∧ ∀ a ∈ order, a ∈ seen ∨ next a ⊆ order := by
  induction h with
  | nil => exact ⟨List.nil_subset _, fun a ha => .inl ha⟩
  | again ha h ih => exact ⟨List.cons_subset.2 ⟨h.isPrefix.subset ha, ih.1⟩, ih.2⟩
  | @enter a rest seen mid order _ h h' ih ih' =>
    have hsub : mid ⊆ order := h'.isPrefix.subset
    refine ⟨List.cons_subset.2 ⟨hsub (h.isPrefix.subset (by simp)), ih'.1⟩, fun b hb => ?_⟩
    rcases ih'.2 b hb with hb | hb
    · rcases ih.2 b hb with hb | hb
      · rcases List.mem_append.1 hb with hb | hb
        · exact .inl hb
        · exact .inr (List.mem_singleton.1 hb ▸ List.Subset.trans ih.1 hsub)
      · exact .inr (List.Subset.trans hb hsub)
    · exact .inr hb

/-- **What is met is what the start leads to.** -/
theorem mem_iff (h : DepthFirst next [] [a] order) :
    b ∈ order ↔ ReflTransGen (fun a b => b ∈ next a) a b := by
  constructor
  · intro hb
    obtain ⟨c, hc, hr⟩ := (h.exists_reflTransGen b hb).resolve_left List.not_mem_nil
    exact List.mem_singleton.1 hc ▸ hr
  · intro hr
    induction hr with
    | refl => exact h.closed.1 (List.mem_singleton_self a)
    | tail _ hc ih => exact (h.closed.2 _ ih).resolve_left List.not_mem_nil hc

end DepthFirst

/-! ## What a file calls -/

namespace Scope

variable {s : Scope} {p q : Path}

/-- The paths that a file calls, in the order of its calls.  What cannot be read calls nothing. -/
def calledPaths (s : Scope) (p : Path) : List Path :=
  match s.files.read p with
  | .ok text => (Lua.requireCalls text).map fun call => s.target call.name
  | .error _ => []

/-- A file calls a path. -/
abbrev Calls (s : Scope) (p q : Path) : Prop :=
  q ∈ s.calledPaths p

theorem calls_iff : s.Calls p q ↔
    ∃ text, s.files.read p = .ok text ∧ ∃ call ∈ Lua.requireCalls text, s.target call.name = q := by
  cases hr : s.files.read p with
  | ok text => simp [Calls, calledPaths, hr]
  | error e => simp [Calls, calledPaths, hr]

theorem snd_ne_nil_of_mem_groupCalls {calls : List Lua.RequireCall}
    {groups : List (Path × List String)} (hg : ∀ group ∈ groups, group.2 ≠ []) :
    ∀ group ∈ s.groupCalls groups calls, group.2 ≠ [] := by
  have hadd (p : Path) (name : String) {groups : List (Path × List String)}
      (hg : ∀ group ∈ groups, group.2 ≠ []) :
      ∀ group ∈ addToGroup p name groups, group.2 ≠ [] := by
    induction groups with
    | nil => simp [addToGroup]
    | cons group groups ih =>
      obtain ⟨_, hg⟩ := List.forall_mem_cons.1 hg
      rw [addToGroup]
      split
      · exact List.forall_mem_cons.2 ⟨by simp, hg⟩
      · exact List.forall_mem_cons.2 ⟨by assumption, ih hg⟩
  induction calls generalizing groups with
  | nil => exact hg
  | cons call calls ih => exact ih (hadd _ _ hg)

end Scope

/-- Each path is as often among the ungrouped ones as it has names. -/
theorem eraseDups_map_snd_ungroup {groups : List (Path × List String)}
    (hg : ∀ group ∈ groups, group.2 ≠ []) :
    ((ungroup groups).map (·.2)).eraseDups = (groups.map (·.1)).eraseDups := by
  induction groups with
  | nil => rfl
  | cons group groups ih =>
    obtain ⟨p, names⟩ := group
    obtain ⟨hne, htail⟩ := List.forall_mem_cons.1 hg
    obtain ⟨name, names, rfl⟩ := List.exists_cons_of_ne_nil hne
    have hungroup : (ungroup ((p, name :: names) :: groups)).map (·.2)
        = p :: (names.map fun _ => p) ++ (ungroup groups).map (·.2) := by
      simp [ungroup, Function.comp_def]
    have hsame : (names.map fun _ => p).filter (fun b => !b == p) = [] := by simp
    rw [hungroup, List.cons_append, List.eraseDups_cons, List.map_cons, List.eraseDups_cons,
      List.filter_append, hsame, List.nil_append, eraseDups_filter, eraseDups_filter, ih htail]

namespace Walk

variable {s : Scope} {w w' : Walk} {visits : List (String × Path)} {failure? : Option ReadFailure}
  {p : Path} {source? : Option String} {seen order : List Path}

/-- What a walk visits after it has read a file, it goes through like the calls of the file. -/
theorem depthFirst_pending_iff (hl : load s.files p = .ok source?) :
    DepthFirst s.calledPaths seen ((pending s source?).map (·.2)) order ↔
      DepthFirst s.calledPaths seen (s.calledPaths p) order := by
  cases source? with
  | some text =>
    have hpending : pending s (some text) = ungroup (s.children text) := rfl
    have hgroups : ∀ group ∈ s.children text, group.2 ≠ [] :=
      Scope.snd_ne_nil_of_mem_groupCalls (by simp)
    rw [hpending, ← DepthFirst.eraseDups_iff, eraseDups_map_snd_ungroup hgroups,
      DepthFirst.eraseDups_iff, Scope.map_fst_children, DepthFirst.eraseDups_iff,
      Scope.calledPaths, read_of_load hl]
  | none =>
    unfold load at hl
    split at hl
    · simp at hl
    · next e hr => simp [pending, Scope.calledPaths, hr]

theorem hasEntered_iff_mem (hw : ∀ q ∈ w.entered, q.Normal) (hp : p.Normal) :
    w.hasEntered p ↔ p ∈ w.entered := by
  rw [hasEntered_iff]
  constructor
  · rintro ⟨q, hq, he⟩
    exact (hw q hq).eq_of_equiv hp he ▸ hq
  · exact fun h => ⟨p, h, Setoid.refl p⟩

theorem normal_of_mem_pending {v : String × Path} (hv : v ∈ pending s source?) : v.2.Normal := by
  cases source? with
  | none => simp [pending] at hv
  | some text =>
    obtain ⟨call, _, rfl⟩ := mem_pending.1 hv
    exact s.normal_target call.name

/-- What a walk visits after it has read a file, the file calls. -/
theorem mem_calledPaths_of_mem_pending (hl : load s.files p = .ok source?) {v : String × Path}
    (hv : v ∈ pending s source?) : v.2 ∈ s.calledPaths p := by
  cases source? with
  | none => simp [pending] at hv
  | some text =>
    obtain ⟨call, hc, rfl⟩ := mem_pending.1 hv
    exact Scope.calls_iff.2 ⟨text, read_of_load hl, call, hc, rfl⟩

theorem forall_entered_enter {P : Path → Prop} (hw : ∀ q ∈ w.entered, P q) (hp : P p) :
    ∀ q ∈ (w.enter p).entered, P q := by
  rw [entered_enter, List.forall_mem_append, List.forall_mem_singleton]
  exact ⟨hw, hp⟩

theorem Visits.mem_entered_of_addModule {name : String}
    (h : Visits s visits ((w.enter p).addModule s name p source?) w' failure?) :
    p ∈ w'.entered :=
  h.extends.entered (by simp)

/-- **What bounds a walk**: a property of the given paths that each file which is entered hands on
to what it calls holds of all paths that are entered. -/
theorem Visits.entered_of_closed {P : Path → Prop} (h : Visits s visits w w' failure?)
    (hcall : ∀ p ∈ w'.entered, ∀ q ∈ s.calledPaths p, P q) (hv : ∀ v ∈ visits, P v.2)
    (hw : ∀ p ∈ w.entered, P p) : ∀ p ∈ w'.entered, P p := by
  induction h with
  | nil => exact hw
  | again _ _ ih => exact ih hcall (List.forall_mem_cons.1 hv).2 (by simpa using hw)
  | unreadable _ _ => exact forall_entered_enter hw (List.forall_mem_cons.1 hv).1
  | @broken _ p _ _ _ _ _ _ hl h ih =>
    have hentered := h.mem_entered_of_addModule
    exact ih hcall (fun v hv => hcall p hentered v.2 (mem_calledPaths_of_mem_pending hl hv))
      (forall_entered_enter hw (List.forall_mem_cons.1 hv).1)
  | @finish _ p _ _ w₁ _ _ _ _ hl h h' ih ih' =>
    obtain ⟨hp, hrest⟩ := List.forall_mem_cons.1 hv
    -- what was entered until `p` is finished is still among the entered paths at the end
    have hsub : w₁.entered ⊆ _ := h'.extends.entered
    have hentered := hsub h.mem_entered_of_addModule
    refine ih' hcall hrest (ih (fun q hq => hcall q (hsub hq)) (fun v hv => ?_)
      (forall_entered_enter hw hp))
    exact hcall p hentered v.2 (mem_calledPaths_of_mem_pending hl hv)

theorem Visits.normal_entered (h : Visits s visits w w' failure?) (hv : ∀ v ∈ visits, v.2.Normal)
    (hw : ∀ p ∈ w.entered, p.Normal) : ∀ p ∈ w'.entered, p.Normal := by
  refine h.entered_of_closed (fun p _ q hq => ?_) hv hw
  obtain ⟨_, _, call, _, rfl⟩ := Scope.calls_iff.1 hq
  exact s.normal_target call.name

/-- **A walk that does not fail enters paths in depth-first order.** -/
theorem Visits.depthFirst (h : Visits s visits w w' none) (hv : ∀ v ∈ visits, v.2.Normal)
    (hw : ∀ p ∈ w.entered, p.Normal) :
    DepthFirst s.calledPaths w.entered (visits.map (·.2)) w'.entered := by
  generalize hn : (none : Option ReadFailure) = failure? at h
  induction h with
  | nil => exact .nil
  | again hp _ ih =>
    obtain ⟨hnormal, hrest⟩ := List.forall_mem_cons.1 hv
    refine .again ((hasEntered_iff_mem hw hnormal).1 hp) ?_
    simpa using ih hrest (by simpa using hw) hn
  | unreadable => simp at hn
  | broken => simp at hn
  | finish hp hl h _ ih ih' =>
    obtain ⟨hnormal, hrest⟩ := List.forall_mem_cons.1 hv
    have hw₁ := forall_entered_enter hw hnormal
    refine .enter (mt (hasEntered_iff_mem hw hnormal).2 hp) ?_
      (ih' hrest (h.normal_entered (fun _ => normal_of_mem_pending) hw₁) hn)
    exact (depthFirst_pending_iff hl).1 (ih (fun _ => normal_of_mem_pending) hw₁ rfl)

/-- **A walk that fails has followed the depth-first order until then.** -/
theorem Visits.isPrefix_of_depthFirst (h : Visits s visits w w' failure?)
    (hv : ∀ v ∈ visits, v.2.Normal) (hw : ∀ p ∈ w.entered, p.Normal)
    (ho : DepthFirst s.calledPaths w.entered (visits.map (·.2)) order) : w'.entered <+: order := by
  induction h generalizing order with
  | nil => exact ho.isPrefix
  | again hp _ ih =>
    obtain ⟨hnormal, hrest⟩ := List.forall_mem_cons.1 hv
    have ho := (DepthFirst.cons_iff_of_mem ((hasEntered_iff_mem hw hnormal).1 hp)).1 ho
    exact ih hrest (by simpa using hw) (by simpa using ho)
  | unreadable hp _ =>
    obtain ⟨hnormal, _⟩ := List.forall_mem_cons.1 hv
    obtain ⟨mid, hmid, ho⟩ :=
      (DepthFirst.cons_iff_of_not_mem (mt (hasEntered_iff_mem hw hnormal).2 hp)).1 ho
    exact hmid.isPrefix.trans ho.isPrefix
  | broken hp hl _ ih =>
    obtain ⟨hnormal, _⟩ := List.forall_mem_cons.1 hv
    obtain ⟨mid, hmid, ho⟩ :=
      (DepthFirst.cons_iff_of_not_mem (mt (hasEntered_iff_mem hw hnormal).2 hp)).1 ho
    refine (ih (fun _ => normal_of_mem_pending) (forall_entered_enter hw hnormal) ?_).trans
      ho.isPrefix
    exact (depthFirst_pending_iff hl).2 hmid
  | finish hp hl h _ ih ih' =>
    obtain ⟨hnormal, hrest⟩ := List.forall_mem_cons.1 hv
    have hw₁ := forall_entered_enter hw hnormal
    obtain ⟨mid, hmid, ho⟩ :=
      (DepthFirst.cons_iff_of_not_mem (mt (hasEntered_iff_mem hw hnormal).2 hp)).1 ho
    -- the first part did not fail, so it is all of the order up to there
    obtain rfl := hmid.unique
      ((depthFirst_pending_iff hl).1 (h.depthFirst (fun _ => normal_of_mem_pending) hw₁))
    exact ih' hrest (h.normal_entered (fun _ => normal_of_mem_pending) hw₁) ho

theorem load_eq_error_iff {files : FileSystem} {e : ReadFailure} :
    load files p = .error e ↔
      e.path = p ∧ files.read p = .error e.error ∧ ¬ e.error.isMissing := by
  obtain ⟨path, error⟩ := e
  unfold load
  split
  · next hr => simp [hr]
  · next err hr =>
    simp only [hr, Except.error.injEq]
    split
    · next hm =>
      simp only [reduceCtorEq, false_iff]
      rintro ⟨_, rfl, hn⟩
      exact hn hm
    · next hm =>
      rw [Except.error.injEq, ReadFailure.mk.injEq]
      constructor
      · rintro ⟨rfl, rfl⟩
        exact ⟨rfl, rfl, hm⟩
      · rintro ⟨rfl, rfl, _⟩
        exact ⟨rfl, rfl⟩

/-- **What visits enter** can be loaded, but for the path where they fail, which comes last. -/
theorem Visits.exists_entered_eq (h : Visits s visits w w' failure?) :
    ∃ loaded, w'.entered = w.entered ++ loaded ++ failure?.toList.map (·.path) ∧
      (∀ p ∈ loaded, ∃ source?, load s.files p = .ok source?) ∧
      ∀ e ∈ failure?, load s.files e.path = .error e := by
  induction h with
  | nil => exact ⟨[], by simp, by simp, by simp⟩
  | again _ _ ih => simpa using ih
  | @unreadable name p rest w e _ hl =>
    obtain ⟨rfl, _⟩ := load_eq_error_iff.1 hl
    exact ⟨[], by simp, by simp, by simpa using hl⟩
  | @broken name p rest w w' e source? _ hl _ ih =>
    obtain ⟨loaded, he, hloaded, hfail⟩ := ih
    refine ⟨p :: loaded, by simp [he], List.forall_mem_cons.2 ⟨⟨source?, hl⟩, hloaded⟩, hfail⟩
  | @finish name p rest w w₁ w' failure? source? _ hl _ _ ih ih' =>
    obtain ⟨loaded, he, hloaded, _⟩ := ih
    obtain ⟨loaded', he', hloaded', hfail⟩ := ih'
    refine ⟨p :: loaded ++ loaded', by simp [he, he'], ?_, hfail⟩
    rw [List.cons_append, List.forall_mem_cons, List.forall_mem_append]
    exact ⟨⟨source?, hl⟩, hloaded, hloaded'⟩

end Walk

/-! ## The order exists -/

/-- The file system in which whatever cannot be read is missing. -/
def FileSystem.lenient (files : FileSystem) : FileSystem where
  has := files.has
  isFile := files.isFile
  read p :=
    match files.read p with
    | .ok text => .ok text
    | .error e => .error { e with kind := .notFound }
  finite := by
    obtain ⟨texts, h⟩ := files.finite
    refine ⟨texts, fun {p text} hr => ?_⟩
    split at hr
    · next hread =>
      obtain rfl := Except.ok.inj hr
      exact h hread
    · simp at hr

theorem Walk.load_lenient_ne_error (files : FileSystem) (p : Path) (e : ReadFailure) :
    load files.lenient p ≠ .error e := by
  intro hl
  obtain ⟨_, hread, hmissing⟩ := load_eq_error_iff.1 hl
  simp only [FileSystem.lenient] at hread
  split at hread
  · simp at hread
  · rw [← Except.error.inj hread] at hmissing
    exact hmissing rfl

namespace Scope

theorem calledPaths_lenient (s : Scope) :
    Scope.calledPaths { s with files := s.files.lenient } = s.calledPaths := by
  funext p
  cases hr : s.files.read p with
  | ok text => simp [calledPaths, FileSystem.lenient, hr, target]
  | error e => simp [calledPaths, FileSystem.lenient, hr]

/-- **What a file leads to has a depth-first order.** -/
theorem exists_depthFirst (s : Scope) {p : Path} (hp : p.Normal) :
    ∃ order, DepthFirst s.calledPaths [] [p] order := by
  have h := Walk.visits_visitAll { s with files := s.files.lenient } [("", p)] {}
  obtain ⟨_, _, _, hfail⟩ := h.exists_entered_eq
  have hnone := Option.eq_none_iff_forall_ne_some.2 fun e he =>
    Walk.load_lenient_ne_error _ _ _ (hfail e he)
  rw [hnone] at h
  have horder := h.depthFirst (by simpa using hp) (by simp)
  rw [calledPaths_lenient] at horder
  exact ⟨_, horder⟩

end Scope

end LuaBundle
