import LuaBundle.Toml.Moment
import LuaBundle.Toml.Tree

/-!
# Unquoted TOML values

Booleans, numbers, dates and times are written without quotes.  `scalar?` reads one from all of its
characters.

* An integer has no leading zero unless it is in base 16, 8 or 2.
* A float has digits on both sides of its point.
* Underscores may stand between two digits.

A number that is well formed but too large is `Node.outOfRange`.
-/

set_option autoImplicit false

namespace LuaBundle.Toml

/-- The value of a digit in bases up to 16. -/
def digit? (base : Nat) (c : Char) : Option Nat :=
  let value? :=
    if '0' ≤ c ∧ c ≤ '9' then some (c.toNat - 48)
    else if 'a' ≤ c ∧ c ≤ 'f' then some (c.toNat - 87)
    else if 'A' ≤ c ∧ c ≤ 'F' then some (c.toNat - 55)
    else none
  value?.filter (· < base)

/-- The digits of a run in which underscores may stand between two digits. -/
def digitRun? (base : Nat) : List Char → Option (List Nat)
  | [] => none
  | [c] => (digit? base c).map ([·])
  | c :: '_' :: rest => do return (← digit? base c) :: (← digitRun? base rest)
  | c :: rest => do return (← digit? base c) :: (← digitRun? base rest)

/-- The number that some digits spell. -/
def numberOf (base : Nat) (digits : List Nat) : Nat :=
  digits.foldl (fun n d => n * base + d) 0

/-- Takes an optional sign off a text; true stands for a minus. -/
def takeSign : List Char → Bool × List Char
  | '-' :: rest => (true, rest)
  | '+' :: rest => (false, rest)
  | rest => (false, rest)

/-- Whether a run of decimal digits begins with a zero and has more than one digit. -/
def hasLeadingZero (digits : List Nat) : Bool :=
  digits.head? == some 0 && digits.length > 1

/-- An integer, which must fit in 64 bits. -/
def integerNode (n : Int) : Node :=
  if -Int.pow 2 63 ≤ n ∧ n < Int.pow 2 63 then .value (.integer n) else .outOfRange

def integer? (cs : List Char) : Option Node :=
  let inBase (base : Nat) (rest : List Char) : Option Node := do
    return integerNode (numberOf base (← digitRun? base rest))
  match cs with
  | '0' :: 'x' :: rest => inBase 16 rest
  | '0' :: 'o' :: rest => inBase 8 rest
  | '0' :: 'b' :: rest => inBase 2 rest
  | cs => do
    let (negative, rest) := takeSign cs
    let digits ← digitRun? 10 rest
    if hasLeadingZero digits then none
    else
      let n : Int := numberOf 10 digits
      return integerNode (if negative then -n else n)

/-- The exponent of a float: nothing, or a letter, an optional sign and digits. -/
def exponent? : List Char → Option Int
  | [] => some 0
  | _ :: rest => do
    let (negative, rest) := takeSign rest
    let n : Int := numberOf 10 (← digitRun? 10 rest)
    return if negative then -n else n

def decimalFloat? (negative : Bool) (cs : List Char) : Option Node := do
  let isMark (c : Char) : Bool := c == 'e' || c == 'E'
  let body := cs.takeWhile (!isMark ·)
  let power ← exponent? (cs.drop body.length)
  let whole := body.takeWhile (· != '.')
  let digits ← digitRun? 10 whole
  let places ←
    match body.drop whole.length with
    | [] => if cs.length = body.length then none else some []
    | _ :: rest => digitRun? 10 rest
  if hasLeadingZero digits then none
  else
    match Decimal.Double.ofDecimal negative (numberOf 10 (digits ++ places))
      (power - places.length) with
    | .infinite _ => return .outOfRange
    | x => return .value (.float x)

def float? (cs : List Char) : Option Node :=
  let (negative, rest) := takeSign cs
  if rest = ['i', 'n', 'f'] then some (.value (.float (.infinite negative)))
  else if rest = ['n', 'a', 'n'] then some (.value (.float .nan))
  else decimalFloat? negative rest

/-- What some unquoted characters spell. -/
def scalar? (cs : List Char) : Option Node :=
  if cs = ['t', 'r', 'u', 'e'] then some (.value (.boolean true))
  else if cs = ['f', 'a', 'l', 's', 'e'] then some (.value (.boolean false))
  else
    (integer? cs).orElse fun _ =>
    (float? cs).orElse fun _ =>
    (Moment.ofChars? cs).map (.value <| .moment ·.text)

end LuaBundle.Toml
