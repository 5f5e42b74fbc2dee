import LuaBundle.Proofs.Lua.Digits
import LuaBundle.Proofs.Lua.Quote
import Mathlib.Data.List.TakeWhile

/-!
# What the body of a literal denotes

Between the quotes of a literal stand characters and escapes, and each of them denotes some bytes.
This is said here without the readers of `LuaBundle.Lua`.

* `IsEscape` — the escapes of the language: a letter or mark for one byte, `\z` with all blanks
  after it, two hexadecimal digits, one to three decimal digits, and a code point in braces;
* `IsReadEscape` — those that are read: there may also be a plus sign before a code point;
* `Denotes` — the bytes of a body, unit by unit;
* `decodeBytes_eq_some_iff` — a body is read if it is made of such units, and then as their bytes;
* `decode_of_denotes` — a body of the language's own units is the text that has their bytes, and
  nothing if no text has them.
-/

set_option autoImplicit false

namespace LuaBundle.Lua

/-! ## Escapes -/

/-- What stands for one byte behind a backslash. -/
def byteEscapes : List (Char × UInt8) :=
  [('a', 7), ('b', 8), ('f', 12), ('n', 10), ('r', 13), ('t', 9), ('v', 11), ('\\', 92), ('"', 34),
    ('\x27', 39), ('\n', 10)]

/-- An escape of the language: what is written behind the backslash, the bytes that it denotes, and
what follows.  Blanks and decimal digits are taken as far as they go, but no more than three
digits. -/
inductive IsEscape : List Char → List UInt8 → List Char → Prop
  | byte {c : Char} {b : UInt8} {after : List Char} (h : (c, b) ∈ byteEscapes) :
      IsEscape [c] [b] after
  | skip {blanks after : List Char} (hb : ∀ c ∈ blanks, isBlank c)
      (hmax : ∀ c ∈ after.head?, ¬ isBlank c) : IsEscape ('z' :: blanks) [] after
  | hex {hi lo : Char} {n : Nat} {after : List Char} (h : Spells 16 [hi, lo] n) :
      IsEscape ['x', hi, lo] [UInt8.ofNat n] after
  | decimal {digits after : List Char} {n : Nat} (h : Spells 10 digits n) (hne : digits ≠ [])
      (hlen : digits.length ≤ 3) (hmax : digits.length = 3 ∨ ∀ c ∈ after.head?, ¬ c.isDigit)
      (hn : n ≤ 255) : IsEscape digits [UInt8.ofNat n] after
  | codePoint {digits after : List Char} {c : Char} (h : Spells 16 digits c.toNat)
      (hne : digits ≠ []) :
      IsEscape ('u' :: '\x7b' :: (digits ++ ['\x7d'])) (String.utf8EncodeChar c) after

/-- An escape that is read.  It is one of the language, or a code point with a plus sign. -/
inductive IsReadEscape : List Char → List UInt8 → List Char → Prop
  | proper {text after : List Char} {bytes : List UInt8} (h : IsEscape text bytes after) :
      IsReadEscape text bytes after
  | signed {digits after : List Char} {c : Char} (h : Spells 16 digits c.toNat)
      (hne : digits ≠ []) :
      IsReadEscape ('u' :: '\x7b' :: '+' :: (digits ++ ['\x7d'])) (String.utf8EncodeChar c) after

/-! ## Letters and marks -/

theorem exists_simpleEscape? {c : Char} {b : UInt8} (h : (c, b) ∈ byteEscapes) :
    ∃ d, simpleEscape? c = some d ∧ String.utf8EncodeChar d = [b] := by
  have hall : byteEscapes.all fun e =>
      (simpleEscape? e.1).map String.utf8EncodeChar == some [e.2] := by decide
  exact Option.map_eq_some_iff.1 (eq_of_beq (List.all_eq_true.1 hall (c, b) h))

theorem exists_mem_byteEscapes {c d : Char} (h : simpleEscape? c = some d) :
    ∃ b, (c, b) ∈ byteEscapes ∧ String.utf8EncodeChar d = [b] := by
  unfold simpleEscape? at h
  split at h
  case h_12 => simp at h
  all_goals
    obtain rfl := Option.some.inj h
    exact ⟨_, by decide, rfl⟩

/-! ## Decimal digits -/

/-- What is taken of a kind, but no more than a few, ends there or where another kind follows. -/
theorem takeWhile_take_isMax (p : Char → Bool) (n : Nat) (cs : List Char) :
    ((cs.take n).takeWhile p).length = n ∨
      ∀ c ∈ (cs.drop ((cs.take n).takeWhile p).length).head?, ¬ p c := by
  rw [← List.take_takeWhile, List.length_take]
  rcases Nat.lt_or_ge (cs.takeWhile p).length n with hlt | hge
  · rw [Nat.min_eq_right (Nat.le_of_lt hlt), drop_length_takeWhile]
    exact .inr (not_of_mem_head?_dropWhile p cs)
  · exact .inl (Nat.min_eq_left hge)

theorem takeWhile_take_append {p : Char → Bool} {n : Nat} {taken after : List Char}
    (ht : ∀ c ∈ taken, p c) (hlen : taken.length ≤ n)
    (hmax : taken.length = n ∨ ∀ c ∈ after.head?, ¬ p c) :
    ((taken ++ after).take n).takeWhile p = taken := by
  rcases hmax with heq | hafter
  · rw [List.take_left' heq]
    exact List.takeWhile_eq_self_iff.2 ht
  · rw [← List.take_takeWhile, takeWhile_append_of_head? ht hafter, List.take_of_length_le hlen]

/-! ## Code points -/

theorem charOfCode?_eq_some_iff {code : Nat} {c : Char} :
    charOfCode? code = some c ↔ code = c.toNat := by
  rw [charOfCode?, Option.ite_none_right_eq_some, Option.some.injEq]
  constructor
  · rintro ⟨hcode, rfl⟩
    rw [Char.ofNat, dif_pos hcode]
    rfl
  · rintro rfl
    exact ⟨c.valid, Char.ofNat_toNat c⟩

/-- Hexadecimal digits are neither the sign nor the brace that may stand around them. -/
theorem ne_of_isDigit {c : Char} {value : Nat} (h : IsDigit 16 c value) : c ≠ '+' ∧ c ≠ '\x7d' := by
  have hall : ∀ value < 16, (Nat.digitChar value ≠ '+' ∧ Nat.digitChar value ≠ '\x7d') ∧
      (Nat.digitChar value).toUpper ≠ '+' ∧ (Nat.digitChar value).toUpper ≠ '\x7d' := by decide
  obtain ⟨hlt, rfl | rfl⟩ := h
  · exact (hall value hlt).1
  · exact (hall value hlt).2

theorem Spells.ne_of_mem {digits : List Char} {n : Nat} (h : Spells 16 digits n) :
    ∀ c ∈ digits, c ≠ '+' ∧ c ≠ '\x7d' := fun _ hc =>
  (h.exists_of_mem hc).elim fun _ => ne_of_isDigit

theorem codePoint?_eq_some_iff {inside : List Char} {c : Char} :
    codePoint? inside = some c ↔ ∃ digits, (inside = digits ∨ inside = '+' :: digits) ∧
      digits ≠ [] ∧ Spells 16 digits c.toNat := by
  have hread : codePoint? inside = some c ↔
      hexValue? (if inside.head? = some '+' then inside.drop 1 else inside) = some c.toNat := by
    simp [codePoint?, Option.bind_eq_some_iff, charOfCode?_eq_some_iff]
  rw [hread, hexValue?_eq_some_iff]
  constructor
  · rintro ⟨hne, h⟩
    refine ⟨_, ?_, hne, h⟩
    split
    · next hplus =>
      obtain ⟨rest, rfl⟩ := List.head?_eq_some_iff.1 hplus
      exact .inr rfl
    · exact .inl rfl
  · rintro ⟨digits, rfl | rfl, hne, h⟩
    · have hplus : inside.head? ≠ some '+' := fun hh =>
        (h.ne_of_mem _ (List.mem_of_head? hh)).1 rfl
      rw [if_neg hplus]
      exact ⟨hne, h⟩
    · exact ⟨hne, h⟩

/-! ## Reading an escape -/

theorem readEscape_codePoint {inside digits : List Char} {c : Char}
    (hinside : inside = digits ∨ inside = '+' :: digits) (h : Spells 16 digits c.toNat)
    (hne : digits ≠ []) (after : List Char) :
    readEscape ('u' :: '\x7b' :: (inside ++ '\x7d' :: after)) =
      some (String.utf8EncodeChar c, after) := by
  have hc : codePoint? inside = some c := codePoint?_eq_some_iff.2 ⟨digits, hinside, hne, h⟩
  have hp : ∀ d ∈ inside, (d != '\x7d') := by
    intro d hd
    refine bne_iff_ne.2 ?_
    rcases hinside with rfl | rfl
    · exact (h.ne_of_mem d hd).2
    · rcases List.mem_cons.1 hd with rfl | hd
      · decide
      · exact (h.ne_of_mem d hd).2
  have hr : ∀ d ∈ ('\x7d' :: after).head?, ¬ (d != '\x7d') := by simp
  simp [readEscape, takeWhile_append_of_head? hp hr, dropWhile_append_of_head? hp hr, hc]

/-- **An escape is read** as its bytes. -/
theorem IsReadEscape.readEscape_append {text after : List Char} {bytes : List UInt8}
    (h : IsReadEscape text bytes after) : readEscape (text ++ after) = some (bytes, after) := by
  cases h with
  | signed h hne => simpa using readEscape_codePoint (.inr rfl) h hne after
  | proper h =>
    cases h with
    | byte hb =>
      obtain ⟨d, hd, hbytes⟩ := exists_simpleEscape? hb
      rw [← hbytes]
      exact readEscape_of_simpleEscape? hd after
    | skip hb hmax => rw [List.cons_append, readEscape, dropWhile_append_of_head? hb hmax]
    | hex h =>
      obtain ⟨m, value, hm, hvalue, rfl⟩ := spells_pair_iff.1 h
      simp [readEscape, hm, hvalue]
    | decimal h hne hlen hmax hn =>
      obtain ⟨hall, rfl⟩ := spells_decimal_iff.1 h
      obtain ⟨c, rest, rfl⟩ := List.exists_cons_of_ne_nil hne
      have hread := readEscape_of_isDigit (hall c (by simp)) (rest ++ after)
      rw [← List.cons_append, takeWhile_take_append hall hlen hmax, if_pos hn,
        List.drop_left] at hread
      exact hread
    | codePoint h hne => simpa using readEscape_codePoint (.inl rfl) h hne after

/-- The text between the braces of a code point, and the text after them. -/
theorem exists_isReadEscape_of_codePoint? {rest after : List Char} {d c : Char}
    (hrest : rest.dropWhile (· != '\x7d') = d :: after)
    (hc : codePoint? (rest.takeWhile (· != '\x7d')) = some c) :
    ∃ text, IsReadEscape text (String.utf8EncodeChar c) after ∧
      text ++ after = 'u' :: '\x7b' :: rest := by
  have hd : d = '\x7d' := by
    have := not_of_mem_head?_dropWhile (· != '\x7d') rest d (by rw [hrest]; rfl)
    simpa using this
  have happ : rest.takeWhile (· != '\x7d') ++ '\x7d' :: after = rest := by
    rw [hd] at hrest
    rw [← hrest, List.takeWhile_append_dropWhile]
  obtain ⟨digits, hinside, hne, h⟩ := codePoint?_eq_some_iff.1 hc
  rcases hinside with hinside | hinside
  · refine ⟨_, .proper (.codePoint h hne), ?_⟩
    rw [← happ, hinside]
    simp
  · refine ⟨_, .signed h hne, ?_⟩
    rw [← happ, hinside]
    simp

/-- The digits that a number starts with, but no more than three, and the text after them. -/
theorem exists_isReadEscape_of_isDigit {cs digits : List Char}
    (hdigits : digits = (cs.take 3).takeWhile Char.isDigit) (hne : digits ≠ [])
    (hn : decimalValue digits ≤ 255) :
    ∃ text, IsReadEscape text [UInt8.ofNat (decimalValue digits)] (cs.drop digits.length) ∧
      text ++ cs.drop digits.length = cs := by
  have hstart : digits <+: cs.take 3 := hdigits ▸ List.takeWhile_prefix Char.isDigit
  have hall : ∀ c ∈ digits, c.isDigit := by
    rw [hdigits]
    exact List.all_eq_true.1 List.all_takeWhile
  have hlen : digits.length ≤ 3 :=
    Nat.le_trans hstart.length_le (List.length_take ▸ Nat.min_le_left _ _)
  have hmax := hdigits ▸ takeWhile_take_isMax Char.isDigit 3 cs
  exact ⟨digits, .proper (.decimal (spells_decimal_iff.2 ⟨hall, rfl⟩) hne hlen hmax hn),
    List.prefix_iff_eq_append.1 (hstart.trans (List.take_prefix 3 cs))⟩

/-- **What is read is an escape.** -/
theorem exists_isReadEscape {cs after : List Char} {bytes : List UInt8}
    (h : readEscape cs = some (bytes, after)) :
    ∃ text, IsReadEscape text bytes after ∧ text ++ after = cs := by
  unfold readEscape at h
  split at h
  · simp at h
  · next rest =>
    obtain ⟨rfl, rfl⟩ := Prod.mk.inj (Option.some.inj h)
    exact ⟨_, .proper (.skip mem_takeWhile_isBlank (not_of_mem_head?_dropWhile isBlank rest)),
      congrArg ('z' :: ·) List.takeWhile_append_dropWhile⟩
  · next hi lo rest =>
    obtain ⟨m, hm, h⟩ := Option.bind_eq_some_iff.1 h
    obtain ⟨value, hvalue, h⟩ := Option.bind_eq_some_iff.1 h
    obtain ⟨rfl, rfl⟩ := Prod.mk.inj (Option.some.inj h)
    exact ⟨_, .proper (.hex (spells_pair_iff.2 ⟨m, value, hm, hvalue, rfl⟩)), rfl⟩
  · next rest =>
    split at h
    · simp at h
    · next d tail hrest =>
      obtain ⟨c, hc, h⟩ := Option.bind_eq_some_iff.1 h
      obtain ⟨rfl, rfl⟩ := Prod.mk.inj (Option.some.inj h)
      exact exists_isReadEscape_of_codePoint? hrest hc
  · next c rest _ _ _ =>
    split at h
    · next hdigit =>
      dsimp only at h
      split at h
      · next hn =>
        obtain ⟨rfl, rfl⟩ := Prod.mk.inj (Option.some.inj h)
        exact exists_isReadEscape_of_isDigit rfl (by simp [hdigit]) hn
      · simp at h
    · obtain ⟨d, hd, h⟩ := Option.map_eq_some_iff.1 h
      obtain ⟨rfl, rfl⟩ := Prod.mk.inj h
      obtain ⟨b, hb, hbytes⟩ := exists_mem_byteEscapes hd
      exact ⟨[c], hbytes ▸ .proper (.byte hb), rfl⟩

/-! ## Bodies -/

/-- The bytes that a body denotes, where its escapes are of a given kind. -/
inductive Denotes (Escape : List Char → List UInt8 → List Char → Prop) :
    List Char → List UInt8 → Prop
  | nil : Denotes Escape [] []
  | char {c : Char} {body : List Char} {bytes : List UInt8} (hc : c ≠ '\\')
      (h : Denotes Escape body bytes) :
      Denotes Escape (c :: body) (String.utf8EncodeChar c ++ bytes)
  | escape {text body : List Char} {first bytes : List UInt8} (he : Escape text first body)
      (h : Denotes Escape body bytes) : Denotes Escape ('\\' :: (text ++ body)) (first ++ bytes)

theorem Denotes.mono {E F : List Char → List UInt8 → List Char → Prop} {body : List Char}
    {bytes : List UInt8} (hEF : ∀ text bytes after, E text bytes after → F text bytes after)
    (h : Denotes E body bytes) : Denotes F body bytes := by
  induction h with
  | nil => exact .nil
  | char hc _ ih => exact .char hc ih
  | escape he _ ih => exact .escape (hEF _ _ _ he) ih

/-- **A body is read unit by unit.** -/
theorem decodeBytes_eq_some_iff {body : List Char} {bytes : List UInt8} :
    decodeBytes body = some bytes ↔ Denotes IsReadEscape body bytes := by
  constructor
  · intro h
    fun_induction decodeBytes body generalizing bytes with
    | case1 =>
      obtain rfl := Option.some.inj h
      exact .nil
    | case2 => simp at h
    | case3 rest first after hread _ ih =>
      obtain ⟨more, hmore, rfl⟩ := Option.map_eq_some_iff.1 h
      obtain ⟨text, htext, rfl⟩ := exists_isReadEscape hread
      exact .escape htext (ih hmore)
    | case4 c rest hc ih =>
      obtain ⟨more, hmore, rfl⟩ := Option.map_eq_some_iff.1 h
      exact .char (fun he => hc he) (ih hmore)
  · intro h
    induction h with
    | nil => rw [decodeBytes]
    | char hc _ ih => rw [decodeBytes_char hc, ih, Option.map_some]
    | escape he _ ih => rw [decodeBytes_escape he.readEscape_append, ih, Option.map_some]

/-- The bytes are read as the text that has them. -/
theorem fromUTF8?_eq_some_iff {bytes : ByteArray} {s : String} :
    String.fromUTF8? bytes = some s ↔ s.toByteArray = bytes := by
  unfold String.fromUTF8?
  constructor
  · intro h
    split at h
    · obtain rfl := Option.some.inj h
      rfl
    · simp at h
  · rintro rfl
    rw [dif_pos s.isValidUTF8]
    rfl

theorem decode_eq_some_iff {body : List Char} {s : String} :
    decode body = some s ↔
      ∃ bytes, Denotes IsReadEscape body bytes ∧ s.toByteArray = ⟨bytes.toArray⟩ := by
  simp only [decode, Option.bind_eq_bind, Option.bind_eq_some_iff, decodeBytes_eq_some_iff,
    fromUTF8?_eq_some_iff]

/-- **A body of the language's own units is read as the text that has their bytes**, and it is not
read if no text has them. -/
theorem decode_of_denotes {body : List Char} {bytes : List UInt8}
    (h : Denotes IsEscape body bytes) :
    (∀ s : String, decode body = some s ↔ s.toByteArray = ⟨bytes.toArray⟩) ∧
      (decode body = none ↔ ¬ ByteArray.IsValidUTF8 ⟨bytes.toArray⟩) := by
  have hbytes : decodeBytes body = some bytes :=
    decodeBytes_eq_some_iff.2 (h.mono fun _ _ _ => .proper)
  have hdecode : decode body = String.fromUTF8? ⟨bytes.toArray⟩ := by
    rw [decode, hbytes, Option.bind_eq_bind, Option.bind_some]
  refine ⟨fun s => by rw [hdecode, fromUTF8?_eq_some_iff], ?_⟩
  rw [hdecode, String.fromUTF8?]
  split
  · next hvalid => simp [hvalid]
  · next hvalid => simp [hvalid]

/-- Three digits before a fourth, blanks that `\z` takes away, and one letter written as a code
point and another time as two bytes. -/
def mixedBody : List Char :=
  ['\\', 'x', '6', 'C', 'i', '\\', '0', '9', '8', '0', '\\', 'z', ' ', '\n',
    '\\', 'u', '\x7b', '0', 'e', '9', '\x7d', '\\', '1', '9', '5', '\\', 'x', 'a', '9']

theorem decode_of_denotes_mixed :
    Denotes IsEscape mixedBody [108, 105, 98, 48, 195, 169, 195, 169] ∧
      decode mixedBody = some "lib0éé" := by
  have hex (hi lo : Char) {n : Nat} (h : hexValue? [hi, lo] = some n) (after : List Char) :
      IsEscape ['x', hi, lo] [UInt8.ofNat n] after :=
    .hex (hexValue?_eq_some_iff.1 h).2
  have decimal (a b c : Char) (h : [a, b, c].all Char.isDigit)
      (hn : decimalValue [a, b, c] ≤ 255) (after : List Char) :
      IsEscape [a, b, c] [UInt8.ofNat (decimalValue [a, b, c])] after :=
    .decimal (spells_decimal_iff.2 ⟨List.all_eq_true.1 h, rfl⟩) (by simp) (by simp) (.inl rfl) hn
  have skip (rest : List Char) : IsEscape ['z', ' ', '\n'] [] ('\\' :: rest) :=
    .skip (by simp [isBlank]) (by simp [isBlank])
  have point (after : List Char) :
      IsEscape ('u' :: '\x7b' :: (['0', 'e', '9'] ++ ['\x7d'])) (String.utf8EncodeChar 'é') after :=
    .codePoint (hexValue?_eq_some_iff.1 (by decide)).2 (by decide)
  have h : Denotes IsEscape mixedBody [108, 105, 98, 48, 195, 169, 195, 169] :=
    .escape (hex '6' 'C' rfl _) <| @Denotes.char _ 'i' _ _ (by decide) <|
      .escape (decimal '0' '9' '8' (by decide) (by decide) _) <|
      @Denotes.char _ '0' _ _ (by decide) <| .escape (skip _) <| .escape (point _) <|
      .escape (decimal '1' '9' '5' (by decide) (by decide) _) <| .escape (hex 'a' '9' rfl []) .nil
  exact ⟨h, ((decode_of_denotes h).1 _).2 (by decide)⟩

end LuaBundle.Lua
