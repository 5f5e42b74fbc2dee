/-!
# Dates and times

A TOML document may give a date, a time, or both with an offset.  A `Moment` is read from its
characters and written back in one spelling: a `T` between date and time, always seconds, a fraction
of a second only if there is one and without zeros at its end, and a `Z` for an offset that was
given as one.
-/

set_option autoImplicit false

namespace LuaBundle.Toml

structure Date where
  year : Nat
  month : Nat
  day : Nat
  deriving DecidableEq, Repr

structure Time where
  hour : Nat
  minute : Nat
  second : Nat := 0
  nanosecond : Nat := 0
  deriving DecidableEq, Repr

/-- The distance from universal time. -/
inductive Offset where
  | zulu
  | minutes (west : Bool) (hours minutes : Nat)
  deriving DecidableEq, Repr

/-- A date, a time, or a date with a time that may have an offset. -/
inductive Moment where
  | date (d : Date)
  | time (t : Time)
  | dateTime (d : Date) (t : Time) (offset? : Option Offset)
  deriving DecidableEq, Repr

namespace Moment

/-! ## Reading -/

/-- A number of exactly two digits at the start of a text, and the text after it. -/
def twoDigits? : List Char → Option (Nat × List Char)
  | a :: b :: rest =>
    if a.isDigit && b.isDigit && !rest.head?.any Char.isDigit then
      some ((a.toNat - 48) * 10 + (b.toNat - 48), rest)
    else none
  | _ => none

/-- The text after an expected character. -/
def skip? (c : Char) : List Char → Option (List Char)
  | d :: rest => if c = d then some rest else none
  | [] => none

def daysOfMonth (year month : Nat) : Nat :=
  let leap := year % 4 = 0 ∧ (year % 100 ≠ 0 ∨ year % 400 = 0)
  match month with
  | 2 => if leap then 29 else 28
  | 4 | 6 | 9 | 11 => 30
  | _ => 31

def date? (cs : List Char) : Option (Date × List Char) := do
  match cs with
  | a :: b :: c :: d :: rest =>
    if !([a, b, c, d].all Char.isDigit) then none
    else
      let year := [a, b, c, d].foldl (fun n x => n * 10 + (x.toNat - 48)) 0
      let (month, rest) ← twoDigits? (← skip? '-' rest)
      let (day, rest) ← twoDigits? (← skip? '-' rest)
      if 1 ≤ month ∧ month ≤ 12 ∧ 1 ≤ day ∧ day ≤ daysOfMonth year month then
        some (⟨year, month, day⟩, rest)
      else none
  | _ => none

/-- How many nanoseconds the digits of a fraction of a second make.  Only nine digits count. -/
def nanosecondsOf (digits : List Char) : Nat :=
  ((digits ++ List.replicate 9 '0').take 9).foldl (fun n x => n * 10 + (x.toNat - 48)) 0

/-- A fraction of a second in nanoseconds.  At least one digit follows its point. -/
def fraction? : List Char → Option (Nat × List Char)
  | '.' :: rest =>
    let digits := rest.takeWhile Char.isDigit
    if digits.isEmpty then none else some (nanosecondsOf digits, rest.drop digits.length)
  | rest => some (0, rest)

/-- A time of the day, with or without seconds. -/
def time? (cs : List Char) : Option (Time × List Char) := do
  let (hour, rest) ← twoDigits? cs
  let (minute, rest) ← twoDigits? (← skip? ':' rest)
  if hour > 23 ∨ minute > 59 then none
  else
    match rest with
    | ':' :: rest =>
      let (second, rest) ← twoDigits? rest
      let (nanosecond, rest) ← fraction? rest
      if second > 60 then none else some ({ hour, minute, second, nanosecond }, rest)
    | rest => some ({ hour, minute }, rest)

def offset? : List Char → Option (Option Offset)
  | [] => some none
  | ['Z'] | ['z'] => some (some .zulu)
  | sign :: rest => do
    let (hours, rest) ← twoDigits? rest
    let (minutes, rest) ← twoDigits? (← skip? ':' rest)
    if (sign = '+' ∨ sign = '-') ∧ hours ≤ 23 ∧ minutes ≤ 59 ∧ rest = [] then
      some (some (.minutes (sign = '-') hours minutes))
    else none

/-- The moment that a text spells. -/
def ofChars? (cs : List Char) : Option Moment :=
  match date? cs with
  | some (d, []) => some (.date d)
  | some (d, sep :: rest) => do
    if sep = 'T' ∨ sep = 't' ∨ sep = ' ' then
      let (t, rest) ← time? rest
      return .dateTime d t (← offset? rest)
    else none
  | none =>
    match time? cs with
    | some (t, []) => some (.time t)
    | _ => none

/-- Whether a text is as long as a date and spells one, so that a time may follow a blank. -/
def isDate (cs : List Char) : Bool :=
  (date? cs).any (·.2.isEmpty)

/-! ## Writing -/

/-- A number with at least `n` digits. -/
def padded (n value : Nat) : List Char :=
  let ds := Nat.toDigits 10 value
  List.replicate (n - ds.length) '0' ++ ds

/-- Nanoseconds as a fraction of a second: nothing for none, and no zeros at the end. -/
def fractionText (nanosecond : Nat) : List Char :=
  if nanosecond = 0 then []
  else '.' :: ((padded 9 nanosecond).reverse.dropWhile (· == '0')).reverse

def dateText (d : Date) : List Char :=
  padded 4 d.year ++ '-' :: padded 2 d.month ++ '-' :: padded 2 d.day

def timeText (t : Time) : List Char :=
  padded 2 t.hour ++ ':' :: padded 2 t.minute ++ ':' :: padded 2 t.second ++
    fractionText t.nanosecond

/-- An offset; one of no minutes is never west. -/
def offsetText : Offset → List Char
  | .zulu => ['Z']
  | .minutes west hours minutes =>
    (if west ∧ (hours, minutes) ≠ (0, 0) then '-' else '+') ::
      (padded 2 hours ++ ':' :: padded 2 minutes)

def text (m : Moment) : String :=
  String.ofList <|
    match m with
    | date d => dateText d
    | time t => timeText t
    | dateTime d t offset? => dateText d ++ 'T' :: timeText t ++ (offset?.map offsetText).getD []

end Moment

end LuaBundle.Toml
