import LuaBundle.FileSystem
import LuaBundle.Notice
import LuaBundle.RequireGraph

/-!
# Walking along requires

The modules of a project are found by a depth-first walk.  A file is read once, when the walk first
enters its path; the files it requires are visited next, and then the file itself is finished.  A
path that was entered before only gets one more name.

* `Scope` is what stays the same in a walk: the files, the directory that import names start from,
  and the extension.
* `Scope.children` groups the import names of a text by the path that they stand for.
* `Walk` is what a walk has found so far, and `Walk.visit` continues it at a path.  When a file
  cannot be read the visit stops; what was entered stays entered, and the walk can go on elsewhere.
* `Walk.visitAll` does so at some paths in turn.  It ends because below the paths that it is given it
  meets only paths that some text requires, of which there are finitely many: `Walk.remaining` counts
  those that were not entered.
-/

set_option autoImplicit false

namespace LuaBundle

/-! ## The requires of a text -/

/-- What stays the same in a walk. -/
structure Scope where
  files : FileSystem
  /-- The directory that import names start from. -/
  base : Path
  extension : String

/-- The calls of a list without those whose name was called before. -/
def firstCalls : List Lua.RequireCall → List Lua.RequireCall
  | [] => []
  | call :: calls => call :: (firstCalls calls).filter (·.name != call.name)

/-- Adds a name to the group of its path, or a group at the end. -/
def addToGroup (p : Path) (name : String) :
    List (Path × List String) → List (Path × List String)
  | [] => [(p, [name])]
  | (q, names) :: groups =>
    if q ≈ p then (q, names ++ [name]) :: groups else (q, names) :: addToGroup p name groups

namespace Scope

/-- The file that an import name stands for. -/
def target (s : Scope) (name : String) : Path :=
  importPath s.base name s.extension

/-- The paths that a text requires, each with the names that stand for it, in the order in which
they are first met. -/
def children (s : Scope) (text : String) : List (Path × List String) :=
  (firstCalls (Lua.requireCalls text)).foldl
    (fun groups call => addToGroup (s.target call.name) call.name groups) []

/-- What is reported about the calls in the text of a file. -/
def callNotices (s : Scope) (p : Path) (text : String) : List Notice :=
  let calls := Lua.requireCalls text
  calls.map Notice.callFound ++
    (firstCalls calls).map (fun call => .callResolved p call (s.target call.name))

end Scope

/-! ## The walk -/

/-- A file that is there but cannot be read. -/
structure ReadFailure where
  path : Path
  error : FileError
  deriving DecidableEq, Repr

/-- The reasons of a failure, the outermost first. -/
def ReadFailure.chain (f : ReadFailure) : List String :=
  [s!"Failed to read {f.path.text}", f.error.text]

/-- What a walk has found. -/
structure Walk where
  /-- The paths that were entered, in order.  Each was read when it was entered. -/
  entered : List Path := []
  /-- What was found at the paths that could be read or are missing, in the order of entering. -/
  found : List Module := []
  /-- The paths whose requires were all visited, in the order in which that happened. -/
  finished : List Path := []
  notices : List Notice := []
  deriving Repr

namespace Walk

def hasEntered (w : Walk) (p : Path) : Bool :=
  let place := p.steps
  w.entered.any (·.steps == place)

/-- What was found at a path. -/
def module? (w : Walk) (p : Path) : Option Module :=
  let place := p.steps
  w.found.find? (·.path.steps == place)

def note (w : Walk) (n : Notice) : Walk :=
  { w with notices := w.notices ++ [n] }

/-- Notes that a path is being read. -/
def enter (w : Walk) (p : Path) : Walk :=
  { w with entered := w.entered ++ [p] }

/-- Notes that all that a path requires was visited. -/
def finish (w : Walk) (p : Path) : Walk :=
  { w with finished := w.finished ++ [p], notices := w.notices ++ [.visited p] }

/-- Gives the module at a path one more name, unless it has the name already. -/
def addName (w : Walk) (name : String) (p : Path) : Walk :=
  match w.module? p with
  | none => w
  | some m =>
    if name ∈ m.names then w
    else
      { w with
        found := w.found.map fun n =>
          if n.path ≈ p then { n with aliases := n.aliases ++ [name] } else n
        notices := w.notices ++ [.aliasFound name m.name p] }

/-- Adds what was read at a path. -/
def addModule (s : Scope) (w : Walk) (name : String) (p : Path) (source? : Option String) : Walk :=
  let requires := (source?.map s.children).getD []
  let notices :=
    match source? with
    | none => [.notLocal p]
    | some text => s.callNotices p text
  { w with
    found := w.found ++ [{ name, path := p, source?, requires := requires.map (·.1) }]
    notices := w.notices ++ notices }

/-- The text of a file, or none if there is no such file. -/
def load (files : FileSystem) (p : Path) : Except ReadFailure (Option String) :=
  match files.read p with
  | .ok text => .ok (some text)
  | .error e => if e.isMissing then .ok none else .error ⟨p, e⟩

/-- The names and paths that a text requires, one after the other. -/
def pending (s : Scope) (source? : Option String) : List (String × Path) :=
  ((source?.map s.children).getD []).flatMap fun (p, names) => names.map (·, p)

end Walk

/-! ## What a walk can still enter -/

theorem fst_mem_of_mem_addToGroup {p q : Path} {name : String}
    {groups : List (Path × List String)} (h : q ∈ (addToGroup p name groups).map (·.1)) :
    q = p ∨ q ∈ groups.map (·.1) := by
  induction groups with
  | nil => exact .inl (by simpa [addToGroup] using h)
  | cons group groups ih =>
    rw [addToGroup] at h
    split at h
    · exact .inr (by simpa using h)
    · rw [List.map_cons, List.mem_cons] at h ⊢
      rcases h with h | h
      · exact .inr (.inl h)
      · exact (ih h).imp_right .inr

theorem mem_of_mem_firstCalls {call : Lua.RequireCall} {calls : List Lua.RequireCall}
    (h : call ∈ firstCalls calls) : call ∈ calls := by
  induction calls with
  | nil => simp [firstCalls] at h
  | cons first calls ih =>
    rw [firstCalls] at h
    rcases List.mem_cons.1 h with rfl | h
    · exact List.mem_cons_self
    · exact List.mem_cons_of_mem _ (ih (List.mem_filter.1 h).1)

namespace Scope

variable {s : Scope}

/-- A text requires only what its calls stand for. -/
theorem exists_call_of_mem_children {text : String} {p : Path} {names : List String}
    (h : (p, names) ∈ s.children text) :
    ∃ call ∈ Lua.requireCalls text, s.target call.name = p := by
  have key : ∀ (calls : List Lua.RequireCall) (groups : List (Path × List String)),
      p ∈ (calls.foldl (fun groups call => addToGroup (s.target call.name) call.name groups)
        groups).map (·.1) →
      p ∈ groups.map (·.1) ∨ ∃ call ∈ calls, s.target call.name = p := by
    intro calls
    induction calls with
    | nil => exact fun _ h => .inl h
    | cons call calls ih =>
      intro groups h
      rcases ih _ h with h | ⟨c, hc, hp⟩
      · rcases fst_mem_of_mem_addToGroup h with hq | hq
        · exact .inr ⟨call, List.mem_cons_self, hq.symm⟩
        · exact .inl hq
      · exact .inr ⟨c, List.mem_cons_of_mem _ hc, hp⟩
  rcases key _ [] (List.mem_map_of_mem h) with h | ⟨call, hc, hp⟩
  · simp at h
  · exact ⟨call, mem_of_mem_firstCalls hc, hp⟩

/-- The paths that the texts of the files require. -/
noncomputable def targets (s : Scope) : List Path :=
  s.files.finite.choose.flatMap fun text =>
    (Lua.requireCalls text).map fun call => s.target call.name

/-- Whether some text requires a path. -/
noncomputable def isTarget (s : Scope) (p : Path) : Bool :=
  s.targets.any (decide <| · ≈ p)

end Scope

namespace Walk

variable {s : Scope} {w w' : Walk}

theorem hasEntered_iff {p : Path} : w.hasEntered p ↔ ∃ q ∈ w.entered, q ≈ p := by
  simp only [hasEntered, List.any_eq_true, beq_iff_eq, Path.equiv_iff]

theorem hasEntered_mono (h : w.entered ⊆ w'.entered) {p : Path} (hp : w.hasEntered p) :
    w'.hasEntered p := by
  obtain ⟨q, hq, he⟩ := hasEntered_iff.1 hp
  exact hasEntered_iff.2 ⟨q, h hq, he⟩

@[simp] theorem entered_enter (w : Walk) (p : Path) : (w.enter p).entered = w.entered ++ [p] := rfl

@[simp] theorem entered_finish (w : Walk) (p : Path) : (w.finish p).entered = w.entered := rfl

@[simp] theorem entered_addModule (w : Walk) (name : String) (p : Path) (source? : Option String) :
    (w.addModule s name p source?).entered = w.entered := rfl

@[simp] theorem entered_addName (w : Walk) (name : String) (p : Path) :
    (w.addName name p).entered = w.entered := by
  unfold addName
  split
  · rfl
  · split <;> rfl

theorem read_of_load {files : FileSystem} {p : Path} {text : String}
    (h : load files p = .ok (some text)) : files.read p = .ok text := by
  unfold load at h
  split at h
  · next hr => simpa [hr] using h
  · split at h <;> simp at h

theorem isTarget_of_mem_pending {p : Path} {source? : Option String}
    (hl : load s.files p = .ok source?) {v : String × Path} (h : v ∈ pending s source?) :
    s.isTarget v.2 := by
  cases source? with
  | none => simp [pending] at h
  | some text =>
    simp only [pending, Option.map_some, Option.getD_some, List.mem_flatMap, List.mem_map] at h
    obtain ⟨⟨q, names⟩, hq, name, _, rfl⟩ := h
    obtain ⟨call, hc, ht⟩ := Scope.exists_call_of_mem_children hq
    have hm : q ∈ s.targets :=
      List.mem_flatMap.2 ⟨text, s.files.finite.choose_spec (read_of_load hl),
        List.mem_map.2 ⟨call, hc, ht⟩⟩
    exact List.any_eq_true.2 ⟨q, hm, decide_eq_true (Setoid.refl q)⟩

/-- How many paths a walk may still enter below the given ones: those that some text requires and
those that are given beside them. -/
noncomputable def remaining (s : Scope) (pending : List (String × Path)) (w : Walk) : Nat :=
  s.targets.countP (!w.hasEntered ·) + pending.countP (!s.isTarget ·.2)

theorem countP_hasEntered_le (h : w.entered ⊆ w'.entered) :
    s.targets.countP (!w'.hasEntered ·) ≤ s.targets.countP (!w.hasEntered ·) := by
  refine List.countP_mono_left fun p _ hp => ?_
  simp only [Bool.not_eq_true', Bool.eq_false_iff] at hp ⊢
  exact fun hw => hp (hasEntered_mono h hw)

theorem countP_hasEntered_lt {p : Path} (hp : ¬ w.hasEntered p) (ht : s.isTarget p) :
    s.targets.countP (!(w.enter p).hasEntered ·) < s.targets.countP (!w.hasEntered ·) := by
  obtain ⟨q, hq, he⟩ := List.any_eq_true.1 ht
  have he : q.steps = p.steps := Path.equiv_iff.1 (by simpa using he)
  have hlt : ((s.targets.filter (!w.hasEntered ·)).filter (!(w.enter p).hasEntered ·)).length <
      (s.targets.filter (!w.hasEntered ·)).length := by
    refine List.length_filter_lt_length_iff_exists.2 ⟨q, List.mem_filter.2 ⟨hq, ?_⟩, ?_⟩
    · simpa [hasEntered, he] using hp
    · simp [hasEntered, he]
  rw [← List.countP_eq_length_filter, ← List.countP_eq_length_filter, List.countP_filter] at hlt
  refine Nat.lt_of_le_of_lt (Nat.le_of_eq (List.countP_congr fun q _ => ?_)) hlt
  simp only [Bool.and_eq_true, Bool.not_eq_true', Bool.eq_false_iff]
  exact ⟨fun h => ⟨h, fun hw => h (hasEntered_mono (by simp) hw)⟩, And.left⟩

theorem remaining_tail_le (v : String × Path) (rest : List (String × Path))
    (h : w.entered ⊆ w'.entered) : remaining s rest w' ≤ remaining s (v :: rest) w :=
  Nat.add_le_add (countP_hasEntered_le h) (by simp [List.countP_cons])

/-- What is read at a path that was not entered leaves less to be entered. -/
theorem remaining_pending_lt {name : String} {p : Path} {rest : List (String × Path)}
    {source? : Option String} (hp : ¬ w.hasEntered p) (hl : load s.files p = .ok source?) :
    remaining s (pending s source?) (w.enter p) < remaining s ((name, p) :: rest) w := by
  have hzero : (pending s source?).countP (!s.isTarget ·.2) = 0 :=
    List.countP_eq_zero.2 fun v hv => by simp [isTarget_of_mem_pending hl hv]
  unfold remaining
  by_cases ht : s.isTarget p
  · have := countP_hasEntered_lt hp ht
    omega
  · have hsub : w.entered ⊆ (w.enter p).entered := by simp
    have := countP_hasEntered_le (s := s) hsub
    rw [List.countP_cons_of_pos (by simpa using ht)]
    omega

theorem lex_of_le {a b c d : Nat} (h : a ≤ b) (h' : c < d) :
    Prod.Lex (· < ·) (· < ·) (a, c) (b, d) := by
  rcases Nat.lt_or_eq_of_le h with h | rfl
  · exact .left _ _ h
  · exact .right _ h'

/-! ## Visiting -/

/-- How a walk may go on until a file cannot be read: what was entered stays entered. -/
abbrev Continued (w : Walk) := {r : Walk × Option ReadFailure // w.entered ⊆ r.1.entered}

/-- Continues a walk at some paths, each with the name that it is required by, one after the other
until a file cannot be read. -/
def visitAll (s : Scope) (visits : List (String × Path)) (w : Walk) : w.Continued :=
  match visits with
  | [] => ⟨(w, none), List.Subset.refl _⟩
  | (name, p) :: rest =>
    if hp : w.hasEntered p then
      let ⟨r, hr⟩ := visitAll s rest (w.addName name p)
      ⟨r, by simpa using hr⟩
    else
      match hl : load s.files p with
      | .error e => ⟨(w.enter p, some e), by simp⟩
      | .ok source? =>
        match visitAll s (pending s source?) ((w.enter p).addModule s name p source?) with
        | ⟨(w', some e), h⟩ => ⟨(w', some e), fun q hq => h (by simp [hq])⟩
        | ⟨(w', none), h⟩ =>
          let ⟨r, hr⟩ := visitAll s rest (w'.finish p)
          ⟨r, fun q hq => hr (h (by simp [hq]))⟩
termination_by (remaining s visits w, visits.length)
decreasing_by
  · exact lex_of_le (remaining_tail_le _ _ (by simp)) (Nat.lt_succ_self _)
  · exact .left _ _ (remaining_pending_lt hp hl)
  · exact lex_of_le (remaining_tail_le _ _ fun q hq => h (by simp [hq])) (Nat.lt_succ_self _)

/-- Continues a walk at a path, which is required by the given name. -/
def visit (s : Scope) (name : String) (p : Path) (w : Walk) : Walk × Option ReadFailure :=
  (visitAll s [(name, p)] w).1

end Walk

end LuaBundle
