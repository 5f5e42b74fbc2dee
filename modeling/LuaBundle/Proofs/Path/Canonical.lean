import LuaBundle.Proofs.Path.Parents

/-!
# Where paths lead

A path that nobody has looked up says where to start, how far to climb, and by which names to go
down from there.  `Path.destination` reads this off the steps of a path from left to right, and
normalising a path writes it down again.

* `Destination.foldl_push_steps` — the stack that normalising works on holds the steps to the
  destination, and `Destination.reach_steps` — these steps lead there;
* `Path.destination_normalize` and `Path.normalize_eq_iff` — so a path leads where its normal form
  leads, and paths with one destination have one normal form;
* `Path.destination_join` — a path after a path is read on from the destination of the first;
* `Path.normalize_canonical` — what a normal form looks like, and what it stands for.
-/

set_option autoImplicit false

namespace LuaBundle

namespace Step

theorem push_here (stack : List Step) : push stack here = stack := by
  cases stack <;> rfl

theorem push_root (stack : List Step) : push stack root = [root] := by
  cases stack <;> rfl

theorem ofPiece?_ne_root (piece : List Char) : ofPiece? piece ≠ some root := by
  unfold ofPiece?
  split <;> simp

end Step

/-- What the names of a path start from: the root, or so many directories above the one that the
path is read in. -/
inductive Anchor where
  | root
  | above (climb : Nat)
  deriving DecidableEq, Repr

/-- The steps to an anchor. -/
def Anchor.steps : Anchor → List Step
  | root => [.root]
  | above climb => List.replicate climb .up

/-- The directory above an anchor.  There is none above the root. -/
def Anchor.up : Anchor → Anchor
  | root => root
  | above climb => above (climb + 1)

/-- Where a path leads, as far as the path tells: from an anchor down by some names. -/
structure Destination where
  anchor : Anchor
  names : List String
  deriving DecidableEq, Repr

namespace Destination

/-- The directory that a path is read in. -/
def here : Destination := ⟨.above 0, []⟩

/-- Where a step leads.  A name goes down by it, and `..` takes the last name back, or goes up from
the anchor where there is no name. -/
def go (d : Destination) : Step → Destination
  | .root => ⟨.root, []⟩
  | .here => d
  | .name n => ⟨d.anchor, d.names ++ [n]⟩
  | .up => if d.names = [] then ⟨d.anchor.up, []⟩ else ⟨d.anchor, d.names.dropLast⟩

/-- Where some steps lead, one after the other. -/
def reach (d : Destination) (steps : List Step) : Destination :=
  steps.foldl go d

/-- The steps to a destination. -/
def steps (d : Destination) : List Step :=
  d.anchor.steps ++ d.names.map .name

variable {d : Destination}

theorem here_notMem_steps (d : Destination) : .here ∉ d.steps := by
  cases hd : d.anchor <;> simp [steps, Anchor.steps, hd]

theorem up_notMem_steps (h : d.anchor = .root) : .up ∉ d.steps := by
  simp [steps, Anchor.steps, h]

/-! ## Stacks -/

theorem push_up_anchor (anchor : Anchor) :
    Step.push anchor.steps.reverse .up = anchor.up.steps.reverse := by
  cases anchor with
  | root => rfl
  | above climb =>
    rw [Anchor.steps, Anchor.up, Anchor.steps, List.reverse_replicate, List.reverse_replicate]
    cases climb <;> rfl

/-- One step on the stack is one step further. -/
theorem push_steps (d : Destination) (s : Step) :
    Step.push d.steps.reverse s = (d.go s).steps.reverse := by
  obtain ⟨anchor, names⟩ := d
  cases s with
  | root => rw [Step.push_root]; rfl
  | here => rw [Step.push_here]; rfl
  | name n => simp [go, steps, Step.push]
  | up =>
    rcases List.eq_nil_or_concat names with rfl | ⟨init, n, rfl⟩
    · simpa [go, steps] using push_up_anchor anchor
    · simp [go, steps, Step.push]

/-- **The stack holds the steps to the destination.** -/
theorem foldl_push_steps (d : Destination) (more : List Step) :
    more.foldl Step.push d.steps.reverse = (d.reach more).steps.reverse := by
  induction more generalizing d with
  | nil => rfl
  | cons s more ih =>
    rw [List.foldl_cons, push_steps, ih]
    rfl

theorem reach_append (d : Destination) (steps more : List Step) :
    d.reach (steps ++ more) = (d.reach steps).reach more :=
  List.foldl_append

theorem reach_names (d : Destination) (names : List String) :
    d.reach (names.map .name) = ⟨d.anchor, d.names ++ names⟩ := by
  induction names generalizing d with
  | nil => simp [reach]
  | cons n names ih =>
    have hnext := ih (d.go (.name n))
    simpa [reach, go] using hnext

theorem reach_climb (climb count : Nat) :
    reach ⟨.above climb, []⟩ (List.replicate count .up) = ⟨.above (climb + count), []⟩ := by
  induction count generalizing climb with
  | zero => rfl
  | succ count ih =>
    rw [List.replicate_succ, Nat.add_comm count, ← Nat.add_assoc]
    exact ih (climb + 1)

/-- **The steps to a destination lead there.** -/
theorem reach_steps (d : Destination) : here.reach d.steps = d := by
  obtain ⟨anchor, names⟩ := d
  have hanchor : here.reach anchor.steps = ⟨anchor, []⟩ := by
    cases anchor with
    | root => rfl
    | above climb => exact (reach_climb 0 climb).trans (by rw [Nat.zero_add])
  rw [steps, reach_append, reach_names, hanchor]
  rfl

/-- Only a step to the root leads away from where a path is read. -/
theorem anchor_reach_eq_root_iff (d : Destination) (steps : List Step) :
    (d.reach steps).anchor = .root ↔ d.anchor = .root ∨ .root ∈ steps := by
  induction steps generalizing d with
  | nil => simp [reach]
  | cons s steps ih =>
    have hs : (d.go s).anchor = .root ↔ d.anchor = .root ∨ .root = s := by
      cases s with
      | root | here | name n => simp [go]
      | up =>
        rw [go]
        split
        · cases hd : d.anchor <;> simp [Anchor.up]
        · simp
    rw [List.mem_cons, ← or_assoc, ← hs]
    exact ih (d.go s)

end Destination

namespace Path

variable {p q : Path}

/-- Where a path leads. -/
def destination (p : Path) : Destination :=
  Destination.here.reach p.steps

theorem normalize_steps_eq (p : Path) : Step.normalize p.steps = p.destination.steps := by
  rw [Step.normalize, destination, List.reverse_eq_iff]
  exact Destination.foldl_push_steps Destination.here p.steps

/-- **A path leads where its normal form leads.** -/
theorem destination_normalize (p : Path) : p.normalize.destination = p.destination := by
  rw [destination, steps_normalize, normalize_steps_eq, Destination.reach_steps]

/-- **Paths with one destination have one normal form**, and no other paths have. -/
theorem normalize_eq_iff : p.normalize = q.normalize ↔ p.destination = q.destination := by
  constructor
  · intro h
    rw [← destination_normalize p, h, destination_normalize]
  · intro h
    rw [normalize, normalize, normalize_steps_eq, normalize_steps_eq, h]

/-! ## Absolute paths -/

theorem exists_pieces_eq (p : Path) : ∃ first rest, p.pieces = first :: rest :=
  List.exists_cons_of_ne_nil (Text.segments_ne_nil _ _)

/-- An absolute path starts with the root. -/
theorem exists_steps_of_isAbsolute (h : p.isAbsolute) : ∃ rest, p.steps = .root :: rest := by
  obtain ⟨cs, hcs⟩ := List.head?_eq_some_iff.1 (eq_of_beq h)
  obtain ⟨next, more, hmore⟩ := List.exists_cons_of_ne_nil (Text.segments_ne_nil (· == '/') cs)
  have hpieces : p.pieces = [] :: next :: more := by
    rw [pieces, hcs, ← hmore]
    rfl
  exact ⟨_, steps_of_pieces hpieces⟩

/-- Only in an absolute path is an empty piece the first of several. -/
theorem ofFirstPiece?_ne_root (h : ¬ p.isAbsolute) {first : List Char} {rest : List (List Char)}
    (hpieces : p.pieces = first :: rest) :
    Step.ofFirstPiece? (!rest.isEmpty) first ≠ some .root := by
  unfold Step.ofFirstPiece?
  split
  · cases rest with
    | nil => simp
    | cons next more =>
      have htext := Text.intercalate_segments '/' p.text.toList
      rw [show Text.segments (· == '/') p.text.toList = _ from hpieces,
        List.intercalate_cons_cons] at htext
      exact absurd (by simp [isAbsolute, ← htext]) h
  · simp
  · exact Step.ofPiece?_ne_root _

/-- No other path takes a step to the root. -/
theorem root_notMem_steps (h : ¬ p.isAbsolute) : .root ∉ p.steps := by
  obtain ⟨first, rest, hpieces⟩ := p.exists_pieces_eq
  rw [steps_of_pieces hpieces, List.mem_append, List.mem_filterMap, Option.mem_toList]
  rintro (hroot | ⟨piece, _, hroot⟩)
  · exact ofFirstPiece?_ne_root h hpieces hroot
  · exact Step.ofPiece?_ne_root piece hroot

theorem isAbsolute_iff : p.isAbsolute ↔ .root ∈ p.steps := by
  constructor
  · intro h
    obtain ⟨rest, hrest⟩ := exists_steps_of_isAbsolute h
    rw [hrest]
    exact List.mem_cons_self
  · intro h
    by_contra hrelative
    exact root_notMem_steps hrelative h

theorem anchor_destination_eq_root_iff : p.destination.anchor = .root ↔ p.isAbsolute := by
  rw [isAbsolute_iff, destination, Destination.anchor_reach_eq_root_iff]
  simp [Destination.here]

/-! ## Paths after paths -/

/-- A path, taken in the directory of another path. -/
def join (p q : Path) : Path :=
  if q.isAbsolute then q else p.child q.text

theorem reach_ofFirstPiece? {more : Bool} {first : List Char}
    (h : Step.ofFirstPiece? more first ≠ some .root) (d : Destination) :
    d.reach (Step.ofFirstPiece? more first).toList = d.reach (Step.ofPiece? first).toList := by
  unfold Step.ofFirstPiece? at h ⊢
  split
  · cases more with
    | false => rfl
    | true => exact absurd rfl h
  · rfl
  · rfl

/-- The pieces of a path that is not absolute lead on from wherever one is; there, a leading `.`
adds nothing. -/
theorem reach_pieces (h : ¬ q.isAbsolute) (d : Destination) :
    d.reach (q.pieces.filterMap Step.ofPiece?) = d.reach q.steps := by
  obtain ⟨first, rest, hpieces⟩ := q.exists_pieces_eq
  have hfirst := reach_ofFirstPiece? (ofFirstPiece?_ne_root h hpieces) d
  rw [steps_of_pieces hpieces, Destination.reach_append, hfirst, hpieces,
    ← Destination.reach_append]
  refine congrArg d.reach ?_
  cases hpiece : Step.ofPiece? first with
  | none => rw [List.filterMap_cons_none hpiece]; rfl
  | some s => rw [List.filterMap_cons_some hpiece]; rfl

theorem destination_child (hq : ¬ q.isAbsolute) :
    (p.child q.text).destination = p.destination.reach q.steps := by
  obtain ⟨hempty, hchild⟩ | ⟨first, rest, hchild, hp⟩ := pieces_child p q.text
  · rw [hchild, destination, destination, steps_eq_nil_iff.2 hempty]
    rfl
  · have hsteps : p.steps =
        (Step.ofFirstPiece? true first).toList ++ rest.filterMap Step.ofPiece? := by
      obtain hp | ⟨hp, hfirst⟩ := hp
      · rw [List.cons_append] at hp
        rw [steps_of_pieces hp, List.filterMap_append]
        cases rest <;> exact congrArg _ (List.append_nil _)
      · rw [steps_of_pieces hp]
        cases rest with
        | nil => rw [Step.ofFirstPiece?_of_ne_nil (hfirst rfl)]
        | cons next rest => rfl
    have hmore : (rest ++ q.pieces).isEmpty = false := by
      obtain ⟨next, more, hnext⟩ := q.exists_pieces_eq
      simp [hnext]
    rw [List.cons_append] at hchild
    rw [destination, steps_of_pieces hchild, List.filterMap_append, ← List.append_assoc,
      Destination.reach_append, hmore, Bool.not_false, ← hsteps]
    exact reach_pieces hq p.destination

/-- **A path after a path is read on** from where the first one leads. -/
theorem destination_join (p q : Path) : (p.join q).destination = p.destination.reach q.steps := by
  rw [join]
  split
  · next h =>
    obtain ⟨rest, hrest⟩ := exists_steps_of_isAbsolute h
    rw [destination, hrest]
    rfl
  · next h => exact destination_child h

/-- **The normal form of a path is the one spelling of its destination.**  It starts at the root if
the path does.  It holds no `.`, and no `..` but at the start of a path that is not absolute.  It
leads where the path leads, step by step from left to right, and every path that leads there has
this normal form.  So a normal form is its own, and a path may be normalised before another one is
put after it. -/
theorem normalize_canonical (p : Path) :
    p.normalize.isAbsolute = p.isAbsolute ∧
    .here ∉ p.normalize.steps ∧
    (if p.isAbsolute then .up ∉ p.normalize.steps
      else ∃ (climb : Nat) (names : List String),
        p.normalize.steps = List.replicate climb .up ++ names.map .name) ∧
    p.normalize.destination = p.destination ∧
    (∀ q : Path, p.normalize = q.normalize ↔ p.destination = q.destination) ∧
    p.normalize.normalize = p.normalize ∧
    ∀ q : Path, (p.normalize.join q).normalize = (p.join q).normalize := by
  have hsteps : p.normalize.steps = p.destination.steps := by
    rw [steps_normalize, normalize_steps_eq]
  refine ⟨?_, ?_, ?_, destination_normalize p, fun _ => normalize_eq_iff,
    (normal_normalize p).normalize_eq, fun q => ?_⟩
  · rw [Bool.eq_iff_iff, ← anchor_destination_eq_root_iff, destination_normalize,
      anchor_destination_eq_root_iff]
  · rw [hsteps]
    exact p.destination.here_notMem_steps
  · rw [hsteps]
    split
    · next habsolute =>
      exact Destination.up_notMem_steps (anchor_destination_eq_root_iff.2 habsolute)
    · next hrelative =>
      obtain ⟨climb, hanchor⟩ : ∃ climb, p.destination.anchor = .above climb := by
        cases hanchor : p.destination.anchor with
        | root => exact absurd (anchor_destination_eq_root_iff.1 hanchor) hrelative
        | above climb => exact ⟨climb, rfl⟩
      exact ⟨climb, p.destination.names, by rw [Destination.steps, hanchor, Anchor.steps]⟩
  · rw [normalize_eq_iff, destination_join, destination_join, destination_normalize]

example : (⟨"a/../.././/b/c/.."⟩ : Path).destination = ⟨.above 1, ["b"]⟩ := by decide +kernel

end Path

end LuaBundle
