import LuaBundle.Proofs.Project.DepthFirst
import LuaBundle.Proofs.Project.LoadOrder
import Mathlib.Data.List.Perm.Subperm

/-!
# Visits, step by step

`Walk.visitAll` is a program that ends by a measure, which counts the paths that the texts of all
files require.  A `Walk.Machine` makes the same visits without one: it keeps a stack of what is left
to do and takes single steps, each of which asks the files for one text or for none.  So it could go
on forever, and it could ask for a text again and again.

* `Machine.step?` and `Machine.run` — the steps, and what is asked for in some number of them;
* `Visits.runs` — the machine makes the visits of a derivation, and asks for what they enter;
* `walk_ends` — so it always ends, with the walk that the visits make, and has asked once for each
  path that was entered, in that order.
-/

set_option autoImplicit false

namespace LuaBundle

namespace Walk

/-! ## The machine -/

/-- What a walk still has to do. -/
inductive Task where
  /-- Goes to a path, which is required by a name. -/
  | visit (name : String) (p : Path)
  /-- Asks for the text at a path that was just entered. -/
  | read (name : String) (p : Path)
  /-- Leaves a path: all that it requires was visited. -/
  | finish (p : Path)
  deriving DecidableEq, Repr

/-- A walk on its way. -/
structure Machine where
  /-- The visits that were not started. -/
  visits : List (String × Path)
  /-- What is left to do for the visit that was started last, the next task first. -/
  tasks : List Task
  walk : Walk
  deriving Repr

/-- The tasks that the requires of a text make. -/
def tasksOf (visits : List (String × Path)) : List Task :=
  visits.map fun v => .visit v.1 v.2

namespace Machine

/-- The machine before some visits. -/
def start (visits : List (String × Path)) : Machine :=
  ⟨visits, [], {}⟩

/-- The machine after all visits. -/
def halted (w : Walk) : Machine :=
  ⟨[], [], w⟩

/-- The next step, with the path whose text it asks for, if it asks for one.  When a file cannot be
read, all that is left to do for its visit is dropped. -/
def step? (s : Scope) (m : Machine) : Option (Machine × Option Path) :=
  match m.tasks with
  | [] =>
    match m.visits with
    | [] => none
    | (name, p) :: visits => some ({ m with visits, tasks := [.visit name p] }, none)
  | .visit name p :: tasks =>
    if m.walk.hasEntered p then some ({ m with tasks, walk := m.walk.addName name p }, none)
    else some ({ m with tasks := .read name p :: tasks, walk := m.walk.enter p }, none)
  | .read name p :: tasks =>
    match load s.files p with
    | .error _ => some ({ m with tasks := [] }, some p)
    | .ok source? =>
      some ({ m with
        tasks := tasksOf (pending s source?) ++ .finish p :: tasks
        walk := m.walk.addModule s name p source? }, some p)
  | .finish p :: tasks => some ({ m with tasks, walk := m.walk.finish p }, none)

/-- Takes some steps, unless the machine halts before, and lists what they ask for. -/
def run (s : Scope) : Nat → Machine → Machine × List Path
  | 0, m => (m, [])
  | n + 1, m =>
    match m.step? s with
    | none => (m, [])
    | some (m', asked?) =>
      let (last, asked) := run s n m'
      (last, asked?.toList ++ asked)

/-- Some steps lead from a machine to another, and ask for some paths in turn. -/
inductive Runs (s : Scope) : Machine → List Path → Machine → Prop
  | refl (m : Machine) : Runs s m [] m
  | step {m m' last : Machine} {asked? : Option Path} {asked : List Path}
      (h : m.step? s = some (m', asked?)) (h' : Runs s m' asked last) :
      Runs s m (asked?.toList ++ asked) last

variable {s : Scope} {m m' last : Machine} {asked asked' : List Path}

theorem Runs.trans (h : Runs s m asked m') (h' : Runs s m' asked' last) :
    Runs s m (asked ++ asked') last := by
  induction h with
  | refl => exact h'
  | step hs _ ih =>
    rw [List.append_assoc]
    exact .step hs (ih h')

/-- A machine halts only when nothing is left to do. -/
theorem step?_eq_none_iff : m.step? s = none ↔ m = halted m.walk := by
  obtain ⟨visits, tasks, w⟩ := m
  cases tasks with
  | nil => cases visits <;> simp [step?, halted]
  | cons task tasks =>
    simp only [halted, Machine.mk.injEq, List.cons_ne_nil, false_and, and_false, iff_false, step?]
    split
    · simp_all
    · split <;> simp
    · split <;> simp
    · simp

theorem run_of_halted (h : m.step? s = none) (n : Nat) : run s n m = (m, []) := by
  cases n with
  | zero => rfl
  | succ n => rw [run, h]

/-- Steps that lead to a halt are all that the machine takes, however long it may run. -/
theorem Runs.exists_run_eq (h : Runs s m asked last) (hlast : last.step? s = none) :
    ∃ n, ∀ k, run s (n + k) m = (last, asked) := by
  induction h with
  | refl m => exact ⟨0, fun k => run_of_halted hlast (0 + k)⟩
  | step hs _ ih =>
    obtain ⟨n, hn⟩ := ih hlast
    refine ⟨n + 1, fun k => ?_⟩
    rw [Nat.add_right_comm, run, hs]
    simp only [hn]

section Steps

variable {w : Walk} {visits : List (String × Path)} {name : String} {p : Path} {tasks : List Task}

theorem step?_again (hp : w.hasEntered p) : step? s ⟨visits, .visit name p :: tasks, w⟩ =
    some (⟨visits, tasks, w.addName name p⟩, none) :=
  if_pos hp

theorem step?_enter (hp : ¬ w.hasEntered p) : step? s ⟨visits, .visit name p :: tasks, w⟩ =
    some (⟨visits, .read name p :: tasks, w.enter p⟩, none) :=
  if_neg hp

theorem step?_read_ok {source? : Option String} (hl : load s.files p = .ok source?) :
    step? s ⟨visits, .read name p :: tasks, w⟩ =
      some (⟨visits, tasksOf (pending s source?) ++ .finish p :: tasks,
        w.addModule s name p source?⟩, some p) := by
  simp only [step?, hl]

theorem step?_read_error {e : ReadFailure} (hl : load s.files p = .error e) :
    step? s ⟨visits, .read name p :: tasks, w⟩ = some (⟨visits, [], w⟩, some p) := by
  simp only [step?, hl]

/-- A silent step. -/
theorem Runs.silent (h : m.step? s = some (m', none)) (h' : Runs s m' asked last) :
    Runs s m asked last :=
  .step h h'

/-- Entering a path takes two steps, and the second asks for it. -/
theorem Runs.enter (hp : ¬ w.hasEntered p)
    (h : step? s ⟨visits, .read name p :: tasks, w.enter p⟩ = some (m, some p))
    (h' : Runs s m asked last) : Runs s ⟨visits, .visit name p :: tasks, w⟩ (p :: asked) last :=
  (Runs.step h h').silent (step?_enter hp)

end Steps

end Machine

/-! ## The visits of a machine -/

open Machine

variable {s : Scope} {w w' : Walk} {visits : List (String × Path)} {failure? : Option ReadFailure}

/-- **The machine makes the visits of a derivation**, and asks for the paths that they enter.  After
a failure nothing is left to do. -/
theorem Visits.runs (h : Visits s visits w w' failure?) (later : List (String × Path))
    (tasks : List Task) : ∃ asked, w'.entered = w.entered ++ asked ∧
      Runs s ⟨later, tasksOf visits ++ tasks, w⟩ asked
        ⟨later, failure?.elim tasks fun _ => [], w'⟩ := by
  induction h generalizing tasks with
  | nil => exact ⟨[], (List.append_nil _).symm, .refl _⟩
  | again hp _ ih =>
    obtain ⟨asked, hentered, hruns⟩ := ih tasks
    rw [entered_addName] at hentered
    exact ⟨asked, hentered, hruns.silent (step?_again hp)⟩
  | unreadable hp hl => exact ⟨[_], rfl, .enter hp (step?_read_error hl) (.refl _)⟩
  | @broken name p rest w w' e source? hp hl _ ih =>
    obtain ⟨asked, hentered, hruns⟩ := ih (.finish p :: (tasksOf rest ++ tasks))
    refine ⟨p :: asked, ?_, .enter hp (step?_read_ok hl) hruns⟩
    rw [hentered, entered_addModule, entered_enter, List.append_assoc, List.singleton_append]
  | @finish name p rest w w₁ w' failure? source? hp hl _ _ ih ih' =>
    obtain ⟨asked, hentered, hruns⟩ := ih (.finish p :: (tasksOf rest ++ tasks))
    obtain ⟨asked', hentered', hruns'⟩ := ih' tasks
    refine ⟨p :: (asked ++ asked'), ?_, .enter hp (step?_read_ok hl) (hruns.trans ?_)⟩
    · rw [hentered', entered_finish, hentered, entered_addModule, entered_enter]
      simp only [List.append_assoc, List.cons_append, List.nil_append]
    · exact hruns'.silent rfl

/-- The machine makes visits one after the other, whether or not the visits before failed. -/
theorem runs_visitEach (s : Scope) (visits : List (String × Path)) (w : Walk) :
    ∃ asked, (w.visitEach s visits).entered = w.entered ++ asked ∧
      Runs s ⟨visits, [], w⟩ asked (halted (w.visitEach s visits)) := by
  induction visits generalizing w with
  | nil => exact ⟨[], (List.append_nil _).symm, .refl _⟩
  | cons v visits ih =>
    obtain ⟨asked, hentered, hruns⟩ := (visits_visit s v.1 v.2 w).runs visits []
    obtain ⟨asked', hentered', hruns'⟩ := ih (visit s v.1 v.2 w).1
    have hnothing : ((visit s v.1 v.2 w).2.elim [] fun _ => []) = ([] : List Task) := by
      cases (visit s v.1 v.2 w).2 <;> rfl
    rw [hnothing] at hruns
    refine ⟨asked ++ asked', ?_, (hruns.trans hruns').silent rfl⟩
    rw [← List.append_assoc, ← hentered]
    exact hentered'

/-! ## What is entered -/

theorem entered_visitEach_of_closed {P : Path → Prop}
    (hcall : ∀ p q, s.Calls p q → P q) (hv : ∀ v ∈ visits, P v.2) (hw : ∀ p ∈ w.entered, P p) :
    ∀ p ∈ (w.visitEach s visits).entered, P p := by
  induction visits generalizing w with
  | nil => exact hw
  | cons v visits ih =>
    obtain ⟨hv, hrest⟩ := List.forall_mem_cons.1 hv
    refine ih hrest ((visits_visit s v.1 v.2 w).entered_of_closed (fun p _ => hcall p) ?_ hw)
    exact fun u hu => List.mem_singleton.1 hu ▸ hv

end Walk

/-- The calls in the texts of a store. -/
def Store.calls (store : Store) : List Lua.RequireCall :=
  store.files.flatMap fun f => Lua.requireCalls f.2

theorem Store.mem_targets {store : Store} {s : Scope} (hs : s.files = store.toFileSystem)
    {p q : Path} (h : s.Calls p q) : q ∈ store.calls.map fun call => s.target call.name := by
  obtain ⟨text, hread, call, hcall, rfl⟩ := Scope.calls_iff.1 h
  rw [hs] at hread
  obtain ⟨f, hf, rfl⟩ := List.mem_map.1 (Store.mem_of_read hread)
  exact List.mem_map_of_mem (List.mem_flatMap.2 ⟨f, hf, hcall⟩)

namespace Walk

open Machine

/-- **Visits end, and read each path once.**  Whatever the files hold, and however they require each
other: the machine that makes some visits one after the other halts after some number of steps.  It
leaves the walk that the visits make, and it has asked for the text of each path that was entered,
in the order of entering, and for no other; no path is entered twice.

In a store, no more paths are entered than there are visits and calls in the stored texts. -/
theorem visits_end (base : Path) (extension : String) (visits : List (String × Path)) :
    (∀ files : FileSystem,
      let s : Scope := { files, base, extension }
      let w := visitEach s visits {}
      (∃ n, ∀ k, run s (n + k) (start visits) = (halted w, w.entered)) ∧
        w.entered.Pairwise (¬ · ≈ ·)) ∧
    ∀ store : Store,
      (visitEach { files := store.toFileSystem, base, extension } visits {}).entered.length ≤
        visits.length + store.calls.length := by
  have hentered (s : Scope) : (visitEach s visits {}).entered.Pairwise (¬ · ≈ ·) :=
    ((InOrder.empty s).visitEach visits).sound.entered
  constructor
  · intro files s w
    obtain ⟨asked, hasked, hruns⟩ := runs_visitEach s visits {}
    rw [List.nil_append] at hasked
    obtain rfl : w.entered = asked := hasked
    exact ⟨hruns.exists_run_eq (step?_eq_none_iff.2 rfl), hentered s⟩
  · intro store
    let s : Scope := { files := store.toFileSystem, base, extension }
    let targets := store.calls.map fun call => s.target call.name
    have hsub : (visitEach s visits {}).entered ⊆ visits.map (·.2) ++ targets :=
      entered_visitEach_of_closed
        (fun p q h => List.mem_append_right _ (Store.mem_targets rfl h))
        (fun v hv => List.mem_append_left _ (List.mem_map_of_mem hv)) (by simp)
    have hnodup : (visitEach s visits {}).entered.Nodup :=
      (hentered s).imp fun hpq he => hpq (Path.equiv_of_eq he)
    calc (visitEach s visits {}).entered.length
        ≤ (visits.map (·.2) ++ targets).length := (List.subperm_of_subset hnodup hsub).length_le
      _ = visits.length + store.calls.length := by
        rw [List.length_append, List.length_map, List.length_map]

/-- Two files that require each other and themselves, and one that is missing. -/
example :
    let store := Store.ofList [(⟨"main.lua"⟩, "require 'main' require 'util' require '/util'"),
      (⟨"util.lua"⟩, "require 'main' require 'gone'")]
    let s : Scope := { files := store.toFileSystem, base := ⟨""⟩, extension := "lua" }
    (run s 100 (start [("util", ⟨"util.lua"⟩), ("start", ⟨"main.lua"⟩)])).2 =
      [⟨"util.lua"⟩, ⟨"main.lua"⟩, ⟨"gone.lua"⟩] := by
  decide +kernel

end Walk

end LuaBundle
