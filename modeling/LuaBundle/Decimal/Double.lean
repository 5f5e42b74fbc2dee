/-!
# Numbers of double precision

A `Double` is a number of IEEE binary64: a mantissa below 2^53 times a power of two, an infinity, or
no number.  Everything here is worked out on natural numbers.

* `Double.ofDecimal` is the double that is nearest to a decimal number; of two that are equally near
  it takes the one with the even mantissa.
* `Double.text` writes a double with the fewest digits that read back as the same double, always in
  positional notation and always with a point.
-/

set_option autoImplicit false

namespace LuaBundle.Decimal

/-- A number of double precision. -/
inductive Double where
  /-- The number `mantissa * 2 ^ exponent`, below zero if `negative`. -/
  | finite (negative : Bool) (mantissa : Nat) (exponent : Int)
  | infinite (negative : Bool)
  | nan
  deriving DecidableEq, Repr

namespace Double

/-- How many binary digits a mantissa has at most. -/
def precision : Nat := 53

/-- The exponent of the smallest doubles. -/
def minExponent : Int := -1074

/-- The exponent of the largest doubles. -/
def maxExponent : Int := 971

/-- A number as a fraction: `n * base ^ e` over a power of the base. -/
def fraction (base n : Nat) (e : Int) : Nat × Nat :=
  if e ≥ 0 then (n * base.pow e.toNat, 1) else (n, base.pow (-e).toNat)

/-- A quotient rounded to the nearest integer, of two nearest ones to the even one. -/
def roundDiv (num den : Nat) : Nat :=
  let q := num / den
  let r := num % den
  if 2 * r < den then q
  else if 2 * r > den then q + 1
  else if q % 2 = 0 then q else q + 1

/-- The largest `e` with `2 ^ e * den ≤ num`; both numbers are positive. -/
def floorLog2 (num den : Nat) : Int :=
  let e : Int := (Nat.log2 num : Int) - (Nat.log2 den : Int)
  let (n, d) := if e ≥ 0 then (num, den * Nat.pow 2 e.toNat) else (num * Nat.pow 2 (-e).toNat, den)
  if d ≤ n then e else e - 1

/-- The double nearest to a positive fraction. -/
def ofFraction (negative : Bool) (num den : Nat) : Double :=
  let e := max minExponent (floorLog2 num den - (precision - 1 : Nat))
  let (n, d) := if e ≥ 0 then (num, den * Nat.pow 2 e.toNat) else (num * Nat.pow 2 (-e).toNat, den)
  let m := roundDiv n d
  let (m, e) := if m = Nat.pow 2 precision then (m / 2, e + 1) else (m, e)
  if e > maxExponent then infinite negative else finite negative m e

/-- The number of decimal digits of a positive number. -/
def digitCount (n : Nat) : Nat :=
  (Nat.toDigits 10 n).length

/-- The double nearest to `digits * 10 ^ exponent`.  Numbers far out of range are not worked out. -/
def ofDecimal (negative : Bool) (digits : Nat) (exponent : Int) : Double :=
  if digits = 0 then finite negative 0 minExponent
  else
    let magnitude := (digitCount digits : Int) + exponent
    if magnitude > 310 then infinite negative
    else if magnitude < -330 then finite negative 0 minExponent
    else
      let (num, den) := fraction 10 digits exponent
      ofFraction negative num den

/-! ## The fewest digits that read back -/

/-- The numbers that read back as `mantissa * 2 ^ exponent` lie between two bounds, which belong to
them when the mantissa is even.  Both bounds and the number itself are given over one
denominator. -/
structure Interval where
  low : Nat
  value : Nat
  high : Nat
  den : Nat
  closed : Bool

def interval (mantissa : Nat) (exponent : Int) : Interval :=
  let narrow := mantissa = Nat.pow 2 (precision - 1) ∧ exponent > minExponent
  let scale (n : Nat) : Nat := n * Nat.pow 2 (max exponent 0).toNat
  { low := scale (4 * mantissa - if narrow then 1 else 2)
    value := scale (4 * mantissa)
    high := scale (4 * mantissa + 2)
    den := 4 * Nat.pow 2 (max (-exponent) 0).toNat
    closed := mantissa % 2 = 0 }

/-- Whether `digits * 10 ^ grid` lies in an interval. -/
def Interval.holds (i : Interval) (digits : Nat) (grid : Int) : Bool :=
  let (num, den) := fraction 10 digits grid
  let x := num * i.den
  if i.closed then i.low * den ≤ x && x ≤ i.high * den
  else i.low * den < x && x < i.high * den

/-- The least `e` such that the number `num / den` is below `10 ^ e`. -/
def decimalExponent (num den : Nat) : Int :=
  let guess : Int := (digitCount num : Int) - (digitCount den : Int)
  let below (e : Int) : Bool :=
    let (n, d) := fraction 10 1 e
    num * d < n * den
  if below guess then guess else guess + 1

/-- The point of a decimal grid that is nearest to the number of an interval and lies in it; of two
that are equally near, the larger. -/
def Interval.onGrid? (i : Interval) (grid : Int) : Option Nat :=
  let (num, den) := if grid ≥ 0 then (i.value, i.den * Nat.pow 10 grid.toNat)
    else (i.value * Nat.pow 10 (-grid).toNat, i.den)
  let q := num / den
  let nearest := if 2 * (num % den) < den then [q, q + 1] else [q + 1, q]
  nearest.find? (fun digits => i.holds digits grid)

/-- The digits and the power of ten that write the positive number `mantissa * 2 ^ exponent`: the
first grid that has a point in the number's interval. -/
def shortest (mantissa : Nat) (exponent : Int) : Nat × Int :=
  let i := interval mantissa exponent
  let top := decimalExponent i.value i.den
  let found := (List.range 17).findSome? fun n =>
    let grid := top - (n + 1 : Nat)
    (i.onGrid? grid).map (·, grid)
  found.getD (0, 0)

/-- Digits times a power of ten in positional notation, with at least one digit on each side of the
point. -/
def positional (digits : Nat) (exponent : Int) : List Char :=
  let ds := Nat.toDigits 10 digits
  if exponent ≥ 0 then
    ds ++ List.replicate exponent.toNat '0' ++ ['.', '0']
  else
    let places := (-exponent).toNat
    let ds := List.replicate (places + 1 - ds.length) '0' ++ ds
    ds.take (ds.length - places) ++ '.' :: ds.drop (ds.length - places)

/-- Divides all tens out of a number of digits. -/
def trimZeros : Nat → Nat → Int → Nat × Int
  | 0, digits, exponent => (digits, exponent)
  | n + 1, digits, exponent =>
    if digits ≠ 0 ∧ digits % 10 = 0 then trimZeros n (digits / 10) (exponent + 1)
    else (digits, exponent)

/-- A double as text. -/
def text : Double → String
  | nan => "NaN"
  | infinite negative => if negative then "-inf" else "inf"
  | finite negative mantissa exponent =>
    let (digits, power) :=
      if mantissa = 0 then (0, 0)
      else
        let (digits, power) := shortest mantissa exponent
        trimZeros 20 digits power
    String.ofList ((if negative then ['-'] else []) ++ positional digits power)

end Double

end LuaBundle.Decimal
