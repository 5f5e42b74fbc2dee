import LuaBundle.Lua.Literal
import Mathlib.Data.List.Induction

/-!
# Numbers in escapes

An escape may hold a number, written in decimal or hexadecimal digits.  What a digit is and which
number a run of digits spells is said here without the readers of `LuaBundle.Lua`.

* `IsDigit` — a digit of a base, in lower or upper case, and its value;
* `Spells` — the number of a run of digits: one more digit makes it the base times as much and adds
  the digit's value;
* `hexValue?_eq_some_iff`, `spells_decimal_iff` — the readers agree with it.
-/

set_option autoImplicit false

namespace LuaBundle.Lua

/-- A character is a digit of a base, with its value. -/
def IsDigit (base : Nat) (c : Char) (value : Nat) : Prop :=
  value < base ∧ (c = Nat.digitChar value ∨ c = (Nat.digitChar value).toUpper)

/-- A run of digits spells a number. -/
inductive Spells (base : Nat) : List Char → Nat → Prop
  | nil : Spells base [] 0
  | concat {digits : List Char} {c : Char} {n value : Nat} (h : Spells base digits n)
      (hc : IsDigit base c value) : Spells base (digits ++ [c]) (n * base + value)

variable {base n value : Nat} {c : Char} {digits : List Char}

theorem spells_nil_iff : Spells base [] n ↔ n = 0 := by
  constructor
  · intro h
    generalize hcs : ([] : List Char) = cs at h
    cases h with
    | nil => rfl
    | concat => simp at hcs
  · rintro rfl
    exact .nil

theorem spells_concat_iff :
    Spells base (digits ++ [c]) n ↔
      ∃ m value, Spells base digits m ∧ IsDigit base c value ∧ n = m * base + value := by
  constructor
  · intro h
    generalize hcs : digits ++ [c] = cs at h
    cases h with
    | nil => simp at hcs
    | concat h hc =>
      obtain ⟨rfl, rfl⟩ := List.append_singleton_inj.1 hcs
      exact ⟨_, _, h, hc, rfl⟩
  · rintro ⟨m, value, h, hc, rfl⟩
    exact .concat h hc

/-- What can be checked of the first codes holds of the characters that have them. -/
theorem forall_of_toNat_lt {P : Char → Prop} {bound : Nat} (h : ∀ n < bound, P (Char.ofNat n))
    (hc : c.toNat < bound) : P c :=
  Char.ofNat_toNat c ▸ h c.toNat hc

/-! ## Hexadecimal digits -/

theorem hexDigit?_eq_some_iff : hexDigit? c = some value ↔ IsDigit 16 c value := by
  constructor
  · intro h
    have hlt : c.toNat < 103 := by
      unfold hexDigit? at h
      split at h
      · next hc => exact Nat.lt_of_le_of_lt (Char.le_def.1 hc.2) (by decide)
      split at h
      · next hc => exact Nat.lt_of_le_of_lt (Char.le_def.1 hc.2) (by decide)
      split at h
      · next hc => exact Nat.lt_of_le_of_lt (Char.le_def.1 hc.2) (by decide)
      · simp at h
    exact forall_of_toNat_lt (P := fun c => ∀ value ∈ hexDigit? c, value < 16 ∧
      (c = Nat.digitChar value ∨ c = (Nat.digitChar value).toUpper)) (by decide) hlt value h
  · have hall : ∀ value < 16, hexDigit? (Nat.digitChar value) = some value ∧
        hexDigit? (Nat.digitChar value).toUpper = some value := by decide
    rintro ⟨hlt, rfl | rfl⟩
    · exact (hall value hlt).1
    · exact (hall value hlt).2

theorem foldl_hexDigit?_eq_some_iff :
    digits.foldl (fun acc c => return (← acc) * 16 + (← hexDigit? c)) (some 0) = some n ↔
      Spells 16 digits n := by
  induction digits using List.reverseRecOn generalizing n with
  | nil => rw [List.foldl_nil, spells_nil_iff, Option.some.injEq, eq_comm]
  | append_singleton digits c ih =>
    rw [List.foldl_append, List.foldl_cons, List.foldl_nil, spells_concat_iff]
    refine Option.bind_eq_some_iff.trans (exists_congr fun m => ?_)
    rw [ih, exists_and_left]
    refine and_congr_right fun _ => Option.bind_eq_some_iff.trans (exists_congr fun value => ?_)
    rw [hexDigit?_eq_some_iff, Option.pure_def, Option.some.injEq, eq_comm]

/-- **A run of hexadecimal digits is read as the number it spells.** -/
theorem hexValue?_eq_some_iff : hexValue? digits = some n ↔ digits ≠ [] ∧ Spells 16 digits n := by
  cases digits with
  | nil => simp [hexValue?]
  | cons c digits =>
    rw [hexValue?, foldl_hexDigit?_eq_some_iff, and_iff_right (List.cons_ne_nil c digits)]
    exact List.cons_ne_nil c digits

theorem spells_pair_iff {hi lo : Char} :
    Spells 16 [hi, lo] n ↔
      ∃ m value, hexDigit? hi = some m ∧ hexDigit? lo = some value ∧ n = m * 16 + value := by
  have hvalue : hexValue? [hi, lo] = some n ↔ Spells 16 [hi, lo] n := by
    simp [hexValue?_eq_some_iff]
  rw [← hvalue]
  simp [hexValue?, Option.bind_eq_some_iff, @eq_comm _ n]

theorem Spells.exists_of_mem (h : Spells base digits n) (hc : c ∈ digits) :
    ∃ value, IsDigit base c value := by
  induction h with
  | nil => simp at hc
  | concat _ hd ih =>
    rcases List.mem_append.1 hc with hc | hc
    · exact ih hc
    · exact ⟨_, List.mem_singleton.1 hc ▸ hd⟩

/-! ## Decimal digits -/

theorem isDigit_iff : c.isDigit ↔ ∃ value, IsDigit 10 c value := by
  constructor
  · intro hc
    have hlt : c.toNat < 58 := Nat.lt_succ_of_le (Char.isDigit_iff_toNat.1 hc).2
    refine ⟨c.toNat - 48, ?_⟩
    exact forall_of_toNat_lt (P := fun c => c.isDigit → c.toNat - 48 < 10 ∧
      (c = Nat.digitChar (c.toNat - 48) ∨ c = (Nat.digitChar (c.toNat - 48)).toUpper))
      (by decide) hlt hc
  · have hall : ∀ value < 10,
        (Nat.digitChar value).isDigit ∧ (Nat.digitChar value).toUpper.isDigit := by decide
    rintro ⟨value, hlt, rfl | rfl⟩
    · exact (hall value hlt).1
    · exact (hall value hlt).2

/-- The value of a decimal digit is what it is more than the digit zero. -/
theorem toNat_of_isDigit (h : IsDigit 10 c value) : c.toNat - '0'.toNat = value := by
  have hall : ∀ value < 10, (Nat.digitChar value).toNat - '0'.toNat = value ∧
      (Nat.digitChar value).toUpper.toNat - '0'.toNat = value := by decide
  obtain ⟨hlt, rfl | rfl⟩ := h
  · exact (hall value hlt).1
  · exact (hall value hlt).2

/-- **A run of decimal digits is read as the number it spells.** -/
theorem spells_decimal_iff :
    Spells 10 digits n ↔ (∀ c ∈ digits, c.isDigit) ∧ decimalValue digits = n := by
  induction digits using List.reverseRecOn generalizing n with
  | nil =>
    rw [spells_nil_iff, and_iff_right (List.forall_mem_nil _), decimalValue, List.foldl_nil,
      eq_comm]
  | append_singleton digits c ih =>
    have hvalue : decimalValue (digits ++ [c]) =
        decimalValue digits * 10 + (c.toNat - '0'.toNat) := by
      rw [decimalValue, List.foldl_append, List.foldl_cons, List.foldl_nil, decimalValue]
    rw [spells_concat_iff, hvalue, List.forall_mem_append, List.forall_mem_singleton]
    constructor
    · rintro ⟨m, value, h, hc, rfl⟩
      obtain ⟨hall, rfl⟩ := ih.1 h
      exact ⟨⟨hall, isDigit_iff.2 ⟨value, hc⟩⟩, by rw [toNat_of_isDigit hc]⟩
    · rintro ⟨⟨hall, hdigit⟩, rfl⟩
      obtain ⟨value, hc⟩ := isDigit_iff.1 hdigit
      exact ⟨_, value, ih.2 ⟨hall, rfl⟩, hc, by rw [toNat_of_isDigit hc]⟩

end LuaBundle.Lua
