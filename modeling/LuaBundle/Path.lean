import LuaBundle.Text.Segments

/-!
# Paths

A path is kept with the text it was written with, because that text is what messages and listings
show.  What a path *means* is read off its `steps`: repeated and trailing slashes and inner `.`
steps do not count.  Two paths are the same place, written `p ≈ q`, when their steps agree.

* `Path.ofSteps` writes steps in the one canonical spelling.
* `Path.normalize` folds `.` and `..` away, on the text alone: it never asks whether the path
  exists.
* `Path.child`, `Path.parent?`, `Path.fileName?` and `Path.stem` work on the text, so that they
  keep the spelling of what they leave standing.
* `Path.Normal` says that a path is its own normal form.
-/

set_option autoImplicit false

namespace LuaBundle

/-- One step of a path, read from the left. -/
inductive Step where
  /-- The leading slash of an absolute path. -/
  | root
  /-- A leading `.`. -/
  | here
  /-- A `..`. -/
  | up
  /-- The name of a file or directory. -/
  | name (text : String)
  deriving DecidableEq, Repr

/-- A path, with the text it was written with. -/
structure Path where
  text : String
  deriving DecidableEq, Repr, Inhabited

namespace Step

/-- The text of a step between two slashes. -/
def text : Step → String
  | root => ""
  | here => "."
  | up => ".."
  | name n => n

def isName : Step → Bool
  | name _ => true
  | _ => false

/-- The step that a piece of text after the first slash stands for, if it stands for one. -/
def ofPiece? : List Char → Option Step
  | [] => none
  | ['.'] => none
  | ['.', '.'] => some up
  | cs => some (name (String.ofList cs))

/-- The step that the text before the first slash stands for; `more` says that a slash follows. -/
def ofFirstPiece? (more : Bool) : List Char → Option Step
  | [] => if more then some root else none
  | ['.'] => some here
  | cs => ofPiece? cs

/-- One more step on top of a normal form, which is held with its last step first. -/
def push : List Step → Step → List Step
  | stack, here => stack
  | _, root => [root]
  | name _ :: stack, up => stack
  | root :: stack, up => root :: stack
  | stack, step => step :: stack

/-- The normal form of a list of steps: a name is pushed, `..` takes the name before it away, is
kept where there is nothing to take away, and does nothing at the root. -/
def normalize (steps : List Step) : List Step :=
  (steps.foldl push []).reverse

/-- A stack of steps has its names on top. -/
theorem exists_foldl_push_eq (steps stack : List Step)
    (h : ∃ (names : List String) (start : List Step),
      stack = names.map name ++ start ∧ ∀ s ∈ start, s.isName = false) :
    ∃ (names : List String) (start : List Step),
      steps.foldl push stack = names.map name ++ start ∧ ∀ s ∈ start, s.isName = false := by
  induction steps generalizing stack with
  | nil => exact h
  | cons step steps ih =>
    refine ih _ ?_
    obtain ⟨names, start, rfl, hstart⟩ := h
    cases step with
    | here => exact ⟨names, start, by cases names <;> simp [push], hstart⟩
    | root => exact ⟨[], [root], by cases names <;> simp [push], by simp [isName]⟩
    | name n => exact ⟨n :: names, start, by simp [push], hstart⟩
    | up =>
      cases names with
      | cons n names => exact ⟨names, start, by simp [push], hstart⟩
      | nil =>
        refine ⟨[], push start up, by simp, fun s hs => ?_⟩
        match start, hstart, hs with
        | [], _, hs => simp [push] at hs; simp [hs, isName]
        | root :: _, hstart, hs => exact hstart s hs
        | here :: _, hstart, hs | up :: _, hstart, hs =>
          rcases List.mem_cons.1 hs with rfl | hs
          · rfl
          · exact hstart s hs
        | name n :: _, hstart, _ => simp [isName] at hstart

/-- A normal form is a start without names and then only names. -/
theorem exists_normalize_eq (steps : List Step) :
    ∃ (start : List Step) (names : List String),
      normalize steps = start ++ names.map name ∧ ∀ s ∈ start, s.isName = false := by
  obtain ⟨names, start, h, hstart⟩ := exists_foldl_push_eq steps [] ⟨[], [], by simp, by simp⟩
  exact ⟨start.reverse, names.reverse, by simp [normalize, h], by simpa using hstart⟩

end Step

namespace Path

/-- The text between the slashes. -/
def pieces (p : Path) : List (List Char) :=
  Text.segments (· == '/') p.text.toList

/-- What the pieces stand for; an empty piece and an inner `.` stand for no step. -/
def moves (p : Path) : List (Option Step) :=
  match p.pieces with
  | [] => []
  | first :: rest => Step.ofFirstPiece? (!rest.isEmpty) first :: rest.map Step.ofPiece?

/-- The steps of a path. -/
def steps (p : Path) : List Step :=
  p.moves.flatMap Option.toList

/-- Two paths are the same place when they have the same steps. -/
instance : Setoid Path where
  r p q := p.steps = q.steps
  iseqv := ⟨fun _ => rfl, fun h => h.symm, fun h k => h.trans k⟩

instance (p q : Path) : Decidable (p ≈ q) :=
  inferInstanceAs (Decidable (p.steps = q.steps))

theorem equiv_iff {p q : Path} : p ≈ q ↔ p.steps = q.steps := Iff.rfl

theorem equiv_of_eq {p q : Path} (h : p = q) : p ≈ q :=
  congrArg steps h

/-- The canonical spelling of some steps: one slash between two of them. -/
def ofSteps : List Step → Path
  | .root :: rest => ⟨"/" ++ "/".intercalate (rest.map Step.text)⟩
  | steps => ⟨"/".intercalate (steps.map Step.text)⟩

/-- The canonical spelling of what a path means when it is read from left to right. -/
def normalize (p : Path) : Path :=
  ofSteps (Step.normalize p.steps)

/-- A normal path means what its steps say one by one, and is spelled canonically. -/
structure Normal (p : Path) : Prop where
  steps_eq : Step.normalize p.steps = p.steps
  eq_ofSteps : p = ofSteps p.steps

theorem Normal.normalize_eq {p : Path} (h : p.Normal) : p.normalize = p := by
  rw [normalize, h.steps_eq, ← h.eq_ofSteps]

/-- Whether a path starts at the root. -/
def isAbsolute (p : Path) : Bool :=
  p.text.toList.head? == some '/'

/-! ## Building and taking apart -/

/-- The path of an entry of a directory: the entry's name after one slash. -/
def child (dir : Path) (name : String) : Path :=
  if dir.text.toList.getLast?.all (· == '/') then
    ⟨dir.text ++ name⟩
  else
    ⟨dir.text ++ "/" ++ name⟩

/-- Whether a piece after the first slash adds nothing to the path. -/
def isIdle (piece : List Char) : Bool :=
  (Step.ofPiece? piece).isNone

/-- A list without the idle pieces at its end. -/
def dropIdleEnd (pieces : List (List Char)) : List (List Char) :=
  (pieces.reverse.dropWhile isIdle).reverse

/-- Pieces with a slash between two of them; the first piece of an absolute path is empty. -/
def ofPieces : List (List Char) → Path
  | [[]] => ⟨"/"⟩
  | pieces => ⟨String.ofList (['/'].intercalate pieces)⟩

/-- The path without its last step, in its own spelling.  The root and the empty path have none. -/
def parent? (p : Path) : Option Path :=
  match p.pieces with
  | [] => none
  | first :: rest =>
    match dropIdleEnd rest with
    | [] =>
      match Step.ofFirstPiece? (!rest.isEmpty) first with
      | none | some .root => none
      | some _ => some ⟨""⟩
    | body => some (ofPieces (first :: dropIdleEnd body.dropLast))

/-- The last step of a path, if it is a name. -/
def fileName? (p : Path) : Option String :=
  match p.steps.getLast? with
  | some (.name n) => some n
  | _ => none

/-- A file name without its extension, which starts at the last dot.  A dot at the start of the
name starts no extension. -/
def dropExtension (name : List Char) : List Char :=
  match (name.reverse.dropWhile (· != '.')).reverse.dropLast with
  | [] => name
  | before => before

/-- The file name of a path without its extension, empty when the path ends in no name. -/
def stem (p : Path) : String :=
  match p.fileName? with
  | none => ""
  | some n => String.ofList (dropExtension n.toList)

/-! ## Containment -/

/-- Whether a path is a directory or lies inside it, step by step. -/
def isWithin (p dir : Path) : Bool :=
  dir.steps.isPrefixOf p.steps

/-- Whether a path lies inside a directory and is not the directory itself. -/
def isBelow (p dir : Path) : Bool :=
  p.isWithin dir && p.steps != dir.steps

/-- A path as seen from a directory; a path outside the directory stays as it is. -/
def relativeTo (p dir : Path) : Path :=
  if p.isWithin dir then ofSteps (p.steps.drop dir.steps.length) else p

end Path

end LuaBundle
