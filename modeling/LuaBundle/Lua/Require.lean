import LuaBundle.Lua.Literal

/-!
# Finding `require` calls

Calls are found on the text alone, without parsing the program.  The text is read once from left
to right, and all that is remembered is whether the reader stands in a `--` comment.  The keyword
`require`, as a whole word outside a comment, makes a call when an argument follows it: blanks, at
most one opening parenthesis, blanks, and a literal in single or double quotes.  What comes after
the closing quote is not looked at.

* `takeBody` reads a literal up to its closing quote; a line break inside must be escaped.
* `argument?` reads the argument of a call; it fails where the literal does not end, cannot be
  decoded or denotes the empty name.
* `Scanner` is a place in the text, `Scanner.step?` moves it on, `Scanner.next?` moves it to the
  next call, and `requireCalls` lists the calls of a text.
-/

set_option autoImplicit false

namespace LuaBundle.Lua

/-- A call of `require` with a literal argument. -/
structure RequireCall where
  /-- The name that the literal denotes. -/
  name : String
  /-- The line of the keyword; the first line is 1. -/
  line : Nat
  deriving DecidableEq, Repr

/-! ## The argument of a call -/

/-- One unit of a literal's body and the text after it: a character, a backslash with the
character after it, or `\z` with the blanks after it.  There is none at the closing quote, at a
line break, and where the text ends too early. -/
def bodyUnit? (quote : Char) : List Char → Option (List Char × List Char)
  | [] => none
  | '\\' :: 'z' :: rest => some ('\\' :: 'z' :: rest.takeWhile isBlank, rest.dropWhile isBlank)
  | '\\' :: c :: rest => some (['\\', c], rest)
  | ['\\'] => none
  | c :: rest => if c = quote ∨ c = '\n' then none else some ([c], rest)

theorem append_of_bodyUnit? {quote : Char} {cs unit rest : List Char}
    (h : bodyUnit? quote cs = some (unit, rest)) : unit ++ rest = cs := by
  unfold bodyUnit? at h
  split at h
  · simp at h
  · simp only [Option.some.injEq, Prod.mk.injEq] at h
    obtain ⟨rfl, rfl⟩ := h
    simp
  · simp only [Option.some.injEq, Prod.mk.injEq] at h
    obtain ⟨rfl, rfl⟩ := h
    simp
  · simp at h
  · split at h
    · simp at h
    · simp only [Option.some.injEq, Prod.mk.injEq] at h
      obtain ⟨rfl, rfl⟩ := h
      simp

theorem length_of_bodyUnit? {quote : Char} {cs unit rest : List Char}
    (h : bodyUnit? quote cs = some (unit, rest)) : rest.length < cs.length := by
  have ha := append_of_bodyUnit? h
  have hu : unit ≠ [] := by
    rintro rfl
    unfold bodyUnit? at h
    split at h <;> simp at h
  have := List.length_pos_iff.2 hu
  rw [← ha, List.length_append]
  omega

/-- The units of a literal from behind its opening quote on, and the text from the first place
that is none. -/
def bodyUnits (quote : Char) (cs : List Char) : List Char × List Char :=
  match h : bodyUnit? quote cs with
  | none => ([], cs)
  | some (unit, rest) =>
    have := length_of_bodyUnit? h
    let (body, after) := bodyUnits quote rest
    (unit ++ body, after)
termination_by cs.length

/-- The body of a literal and the text after its closing quote. -/
def takeBody (quote : Char) (cs : List Char) : Option (List Char × List Char) :=
  match bodyUnits quote cs with
  | (body, c :: after) => if c = quote then some (body, after) else none
  | (_, []) => none

/-- What follows the keyword of a call. -/
structure Argument where
  /-- The name that the literal denotes. -/
  name : String
  /-- The text from the keyword's end past the closing quote. -/
  span : List Char
  /-- The text after the closing quote. -/
  rest : List Char
  deriving DecidableEq, Repr

/-- The opening of an argument: blanks, at most one parenthesis, blanks. -/
def openingLength (cs : List Char) : Nat :=
  let blanks := (cs.takeWhile isBlank).length
  match cs.drop blanks with
  | '(' :: rest => blanks + 1 + (rest.takeWhile isBlank).length
  | _ => blanks

/-- The argument of a call, read from the keyword's end on. -/
def argument? (cs : List Char) : Option Argument :=
  let n := openingLength cs
  match cs.drop n with
  | [] => none
  | quote :: rest =>
    if quote = '"' ∨ quote = '\x27' then do
      let (body, after) ← takeBody quote rest
      let name ← decode body
      if name = "" then none
      else some ⟨name, cs.take n ++ quote :: body ++ [quote], after⟩
    else none

/-! ## The scanner -/

/-- A place in a text. -/
structure Scanner where
  /-- The character before the place. -/
  before : Option Char := none
  /-- The text from the place on. -/
  rest : List Char
  /-- The line of the place. -/
  line : Nat := 1
  /-- Whether the place lies in a comment. -/
  inComment : Bool := false
  deriving DecidableEq, Repr

/-- The keyword of a call. -/
def keyword : List Char := ['r', 'e', 'q', 'u', 'i', 'r', 'e']

namespace Scanner

def ofString (source : String) : Scanner where
  rest := source.toList

/-- The text after the keyword, if the keyword stands here as a whole word. -/
def keyword? (s : Scanner) : Option (List Char) :=
  let after := s.rest.drop keyword.length
  if keyword.isPrefixOf s.rest && !s.before.any isNameChar && !after.head?.any isNameChar then
    some after
  else
    none

/-- One step through the text, with the call that it passes, if it passes one.  A line break ends
a comment and two hyphens open one; a call is passed as a whole; a keyword without an argument is
passed alone; any other step passes one character. -/
def step? (s : Scanner) : Option (Scanner × Option RequireCall) :=
  match s.rest with
  | [] => none
  | c :: rest =>
    if c = '\n' then
      some ({ before := some c, rest, line := s.line + 1 }, none)
    else if s.inComment then
      some ({ s with before := some c, rest }, none)
    else if c = '-' ∧ rest.head? = some '-' then
      some ({ s with before := some c, rest := rest.drop 1, inComment := true }, none)
    else
      match s.keyword? with
      | none => some ({ s with before := some c, rest }, none)
      | some after =>
        match argument? after with
        | none => some ({ s with before := keyword.getLast?, rest := after }, none)
        | some arg =>
          some ({ s with
              before := arg.span.getLast?
              rest := arg.rest
              line := s.line + arg.span.count '\n' },
            some ⟨arg.name, s.line⟩)

end Scanner

/-! ## Every step shortens the text -/

theorem append_bodyUnits (quote : Char) (cs : List Char) :
    (bodyUnits quote cs).1 ++ (bodyUnits quote cs).2 = cs := by
  fun_induction bodyUnits quote cs with
  | case1 => rfl
  | case2 cs unit rest h _ body after hb ih =>
    rw [hb] at ih
    rw [← append_of_bodyUnit? h, ← ih, List.append_assoc]

/-- Nothing is lost between a body and the text after it, but the closing quote. -/
theorem append_of_takeBody {quote : Char} {cs body after : List Char}
    (h : takeBody quote cs = some (body, after)) : body ++ quote :: after = cs := by
  have hall := append_bodyUnits quote cs
  unfold takeBody at h
  split at h
  · next body' c after' hb =>
    split at h
    · next hc =>
      simp only [Option.some.injEq, Prod.mk.injEq] at h
      obtain ⟨rfl, rfl⟩ := h
      rw [hb, hc] at hall
      exact hall
    · simp at h
  · simp at h

/-- The text that an argument spans is the text before the rest. -/
theorem span_append_rest {cs : List Char} {arg : Argument} (h : argument? cs = some arg) :
    arg.span ++ arg.rest = cs := by
  simp only [argument?] at h
  split at h
  · simp at h
  · next q rest hq =>
    split at h
    · simp only [Option.bind_eq_bind, Option.bind_eq_some_iff] at h
      obtain ⟨⟨body, after⟩, hb, name, _, h⟩ := h
      split at h
      · simp at h
      · simp only [Option.some.injEq] at h
        subst h
        have := append_of_takeBody hb
        simp only [List.append_assoc, List.cons_append, List.nil_append, this, ← hq,
          List.take_append_drop]
    · simp at h

namespace Scanner

theorem keyword_append_of_keyword? {s : Scanner} {after : List Char}
    (h : s.keyword? = some after) : keyword ++ after = s.rest := by
  simp only [keyword?] at h
  split at h
  · next hp =>
    simp only [Option.some.injEq] at h
    simp only [Bool.and_eq_true, List.isPrefixOf_iff_prefix] at hp
    exact h ▸ List.prefix_iff_eq_append.1 hp.1.1
  · simp at h

/-- Every step shortens the text that is left. -/
theorem length_of_step? {s t : Scanner} {call : Option RequireCall}
    (h : s.step? = some (t, call)) : t.rest.length < s.rest.length := by
  unfold step? at h
  split at h
  · simp at h
  · next c rest hs =>
    rw [hs]
    split at h
    · simp only [Option.some.injEq, Prod.mk.injEq] at h
      simp [← h.1]
    · split at h
      · simp only [Option.some.injEq, Prod.mk.injEq] at h
        simp [← h.1]
      · split at h
        · simp only [Option.some.injEq, Prod.mk.injEq] at h
          simp only [← h.1, List.length_drop, List.length_cons]
          omega
        · split at h
          · simp only [Option.some.injEq, Prod.mk.injEq] at h
            simp [← h.1]
          · next after hk =>
            have hlen := congrArg List.length (keyword_append_of_keyword? hk)
            simp only [hs, List.length_append, keyword, List.length_cons, List.length_nil] at hlen
            split at h
            · simp only [Option.some.injEq, Prod.mk.injEq] at h
              simp only [← h.1, List.length_cons]
              omega
            · next arg ha =>
              have hspan := congrArg List.length (span_append_rest ha)
              simp only [List.length_append] at hspan
              simp only [Option.some.injEq, Prod.mk.injEq] at h
              simp only [← h.1, List.length_cons]
              omega

/-! ## All calls -/

/-- The next call and the place after it. -/
def next? (s : Scanner) : Option (RequireCall × Scanner) :=
  match h : s.step? with
  | none => none
  | some (t, some call) => some (call, t)
  | some (t, none) =>
    have := length_of_step? h
    t.next?
termination_by s.rest.length

theorem length_of_next? {s t : Scanner} {call : RequireCall}
    (h : s.next? = some (call, t)) : t.rest.length < s.rest.length := by
  fun_induction next? s with
  | case1 => simp at h
  | case2 s t' call' hs =>
    simp only [Option.some.injEq, Prod.mk.injEq] at h
    obtain ⟨rfl, rfl⟩ := h
    exact length_of_step? hs
  | case3 s t' hs _ ih => exact Nat.lt_trans (ih h) (length_of_step? hs)

/-- The calls from a place on. -/
def calls (s : Scanner) : List RequireCall :=
  match h : s.next? with
  | none => []
  | some (call, t) =>
    have := length_of_next? h
    call :: t.calls
termination_by s.rest.length

end Scanner

/-- The calls of a text, in order. -/
def requireCalls (source : String) : List RequireCall :=
  (Scanner.ofString source).calls

end LuaBundle.Lua
