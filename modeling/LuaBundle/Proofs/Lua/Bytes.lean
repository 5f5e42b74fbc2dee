import LuaBundle.Lua.Require
import Mathlib.Data.String.Basic

/-!
# The bytes of a text

A text is kept as bytes in UTF-8, and a place in it is the number of bytes before it.  Not every
such number is the place of a character, so an access by places can fail: a byte can be asked for
behind the end, and a part of the text can be asked for that starts or ends inside of a character.

* `byteAt`, `bytesFrom`, `bytesBetween`, `slice` — the accesses that must not fail, and the `Fault`
  that they give if they do;
* `Encodes` — a character of ASCII is the one byte with its code, and any other character is made of
  bytes that are none of ASCII;
* `Ascii` — a kind of characters that are all of ASCII; the bytes of the kind are its characters
  (`takeWhile_utf8`, `any_head?_utf8`, `any_getLast?_utf8`);
* `IsCut` — a place between characters, with what stands before and after it.
-/

set_option autoImplicit false

namespace LuaBundle.Lua

open String (utf8EncodeChar utf8Len)

/-! ## Accesses -/

/-- The bytes of a text. -/
def bytesOf (s : String) : List UInt8 :=
  s.toByteArray.data.toList

/-- An access that fails. -/
inductive Fault
  /-- There is no byte at the place. -/
  | byte (pos : Nat)
  /-- There are no such bytes. -/
  | bytes (start stop : Nat)
  /-- There is no such part, or an end of it is not between characters. -/
  | slice (start stop : Nat)
  deriving DecidableEq, Repr

/-- The byte at a place. -/
def byteAt (s : String) (pos : Nat) : Except Fault UInt8 :=
  match (bytesOf s)[pos]? with
  | some b => .ok b
  | none => .error (.byte pos)

/-- The bytes from a place to another. -/
def bytesBetween (s : String) (start stop : Nat) : Except Fault (List UInt8) :=
  if start ≤ stop ∧ stop ≤ (bytesOf s).length then
    .ok (((bytesOf s).take stop).drop start)
  else
    .error (.bytes start stop)

/-- The bytes from a place on. -/
def bytesFrom (s : String) (start : Nat) : Except Fault (List UInt8) :=
  bytesBetween s start (bytesOf s).length

/-- The text from a place to another, if both are between characters. -/
def slice? (s : String) (start stop : Nat) : Option String :=
  if start ≤ stop ∧ String.Pos.Raw.IsValid s ⟨start⟩ ∧ String.Pos.Raw.IsValid s ⟨stop⟩ then
    some (String.Pos.Raw.extract s ⟨start⟩ ⟨stop⟩)
  else
    none

/-- The text from a place to another, both of which must be between characters. -/
def slice (s : String) (start stop : Nat) : Except Fault String :=
  match slice? s start stop with
  | some part => .ok part
  | none => .error (.slice start stop)

/-! ## Characters as bytes -/

/-- The bytes of some characters. -/
def utf8 (cs : List Char) : List UInt8 :=
  cs.flatMap utf8EncodeChar

@[simp] theorem utf8_nil : utf8 [] = [] := rfl

@[simp] theorem utf8_cons (c : Char) (cs : List Char) :
    utf8 (c :: cs) = utf8EncodeChar c ++ utf8 cs := rfl

@[simp] theorem utf8_append (cs ds : List Char) : utf8 (cs ++ ds) = utf8 cs ++ utf8 ds :=
  List.flatMap_append

@[simp] theorem length_utf8 (cs : List Char) : (utf8 cs).length = utf8Len cs := by
  induction cs with
  | nil => rfl
  | cons c cs ih =>
    rw [utf8_cons, List.length_append, String.length_utf8EncodeChar, ih, String.utf8Len_cons,
      Nat.add_comm]

theorem bytesOf_eq (s : String) : bytesOf s = utf8 s.toList := by
  conv => lhs; rw [bytesOf, ← String.ofList_toList (s := s), String.toByteArray_ofList]
  rw [List.utf8Encode, List.data_toByteArray]
  rfl

/-- The bytes that a character is made of: the first and the others. -/
inductive Encodes (c : Char) : UInt8 → List UInt8 → Prop
  | ascii (hc : c.toNat < 128) : Encodes c c.toUInt8 []
  | wide {b : UInt8} {bs : List UInt8} (hc : 128 ≤ c.toNat) (hb : 128 ≤ b.toNat)
      (hbs : ∀ d ∈ bs, 128 ≤ d.toNat) : Encodes c b bs

theorem exists_encodes (c : Char) : ∃ b bs, utf8EncodeChar c = b :: bs ∧ Encodes c b bs := by
  have hval : c.val.toNat = c.toNat := rfl
  simp only [utf8EncodeChar, hval]
  split
  · next h => exact ⟨_, _, rfl, .ascii (Nat.lt_succ_of_le h)⟩
  · next h =>
    have hc : 128 ≤ c.toNat := Nat.lt_of_not_le h
    repeat' split
    all_goals
      refine ⟨_, _, rfl, .wide hc ?_ ?_⟩
      all_goals
        simp only [UInt8.toNat_ofNat', List.mem_cons, List.not_mem_nil, or_false, forall_eq_or_imp,
          forall_eq]
        omega

theorem utf8EncodeChar_of_ascii {c : Char} (hc : c.toNat < 128) :
    utf8EncodeChar c = [c.toUInt8] := by
  obtain ⟨b, bs, h, he⟩ := exists_encodes c
  cases he with
  | ascii => exact h
  | wide hc' => exact absurd hc (Nat.not_lt.2 hc')

theorem utf8Size_of_bytes {c : Char} {b : UInt8} {bs : List UInt8}
    (h : utf8EncodeChar c = b :: bs) : c.utf8Size = bs.length + 1 := by
  rw [← String.length_utf8EncodeChar, h, List.length_cons]

theorem utf8Size_of_ascii {c : Char} (hc : c.toNat < 128) : c.utf8Size = 1 := by
  rw [← String.length_utf8EncodeChar, utf8EncodeChar_of_ascii hc, List.length_singleton]

/-- Characters of ASCII are as many bytes. -/
theorem utf8Len_of_ascii {cs : List Char} (h : ∀ c ∈ cs, c.toNat < 128) :
    utf8Len cs = cs.length := by
  induction cs with
  | nil => rfl
  | cons c cs ih =>
    obtain ⟨hc, hcs⟩ := List.forall_mem_cons.1 h
    rw [String.utf8Len_cons, utf8Size_of_ascii hc, ih hcs, List.length_cons]

theorem toNat_toUInt8 {c : Char} (hc : c.toNat < 128) : c.toUInt8.toNat = c.toNat :=
  (UInt32.toNat_toUInt8 c.val).trans (Nat.mod_eq_of_lt (Nat.lt_trans hc (by decide)))

theorem toNat_ofUInt8 (b : UInt8) : (Char.ofUInt8 b).toNat = b.toNat := rfl

theorem ofUInt8_toUInt8 {c : Char} (hc : c.toNat < 128) : Char.ofUInt8 c.toUInt8 = c :=
  Char.toNat_inj.1 ((toNat_ofUInt8 _).trans (toNat_toUInt8 hc))

theorem ne_of_wide {b : UInt8} {d : Char} (hb : 128 ≤ b.toNat) (hd : d.toNat < 128) :
    b ≠ d.toUInt8 := by
  rintro rfl
  rw [toNat_toUInt8 hd] at hb
  omega

/-- Only the first byte of a character can be one of ASCII. -/
theorem Encodes.wide_of_mem {c : Char} {b : UInt8} {bs : List UInt8} (h : Encodes c b bs) :
    ∀ d ∈ bs, 128 ≤ d.toNat := by
  cases h with
  | ascii => simp
  | wide _ _ hbs => exact hbs

/-- The first byte of a character is compared with one of ASCII as the character is. -/
theorem Encodes.eq_iff {c d : Char} {b : UInt8} {bs : List UInt8} (h : Encodes c b bs)
    (hd : d.toNat < 128) : b = d.toUInt8 ↔ c = d := by
  cases h with
  | ascii hc =>
    refine ⟨fun he => ?_, fun he => he ▸ rfl⟩
    rw [← ofUInt8_toUInt8 hc, he, ofUInt8_toUInt8 hd]
  | wide hc hb =>
    refine iff_of_false (ne_of_wide hb hd) fun he => ?_
    rw [he] at hc
    omega

/-- The bytes of a character are none of another character that is of ASCII. -/
theorem ne_of_mem_utf8EncodeChar {c d : Char} (hd : d.toNat < 128) (hc : c ≠ d) :
    ∀ b ∈ utf8EncodeChar c, b ≠ d.toUInt8 := by
  obtain ⟨b, bs, hbytes, he⟩ := exists_encodes c
  rw [hbytes]
  exact List.forall_mem_cons.2 ⟨fun hb => hc ((he.eq_iff hd).1 hb),
    fun b' hb' => ne_of_wide (he.wide_of_mem b' hb') hd⟩

theorem head?_utf8_eq_some_iff {d : Char} (hd : d.toNat < 128) (cs : List Char) :
    (utf8 cs).head? = some d.toUInt8 ↔ cs.head? = some d := by
  cases cs with
  | nil => simp
  | cons c cs =>
    obtain ⟨b, bs, hbytes, he⟩ := exists_encodes c
    simp [hbytes, he.eq_iff hd]

/-! ## Kinds of characters -/

/-- There are only characters of ASCII of a kind. -/
def Ascii (p : Char → Bool) : Prop :=
  ∀ c, p c → c.toNat < 128

/-- A byte is of a kind if the character with its code is. -/
def isByte (p : Char → Bool) (b : UInt8) : Bool :=
  p (Char.ofUInt8 b)

variable {p : Char → Bool} (hp : Ascii p)

include hp

theorem isByte_of_wide {b : UInt8} (hb : 128 ≤ b.toNat) : isByte p b = false := by
  cases h : isByte p b with
  | false => rfl
  | true => exact absurd (hp _ h) (Nat.not_lt.2 hb)

/-- The first byte of a character is of its kind. -/
theorem Encodes.isByte {c : Char} {b : UInt8} {bs : List UInt8} (h : Encodes c b bs) :
    isByte p b = p c := by
  cases h with
  | ascii hc => rw [Lua.isByte, ofUInt8_toUInt8 hc]
  | wide hc hb =>
    rw [isByte_of_wide hp hb]
    cases h : p c with
    | false => rfl
    | true => exact absurd (hp c h) (Nat.not_lt.2 hc)

theorem takeWhile_utf8 (cs : List Char) :
    (utf8 cs).takeWhile (isByte p) = utf8 (cs.takeWhile p) := by
  induction cs with
  | nil => rfl
  | cons c cs ih =>
    obtain ⟨b, bs, hbytes, he⟩ := exists_encodes c
    rw [utf8_cons, hbytes, List.cons_append, List.takeWhile_cons, he.isByte hp, List.takeWhile_cons]
    cases hc : p c with
    | false => rfl
    | true =>
      rw [utf8EncodeChar_of_ascii (hp c hc)] at hbytes
      obtain ⟨rfl, rfl⟩ := List.cons.inj hbytes
      simp [ih, utf8EncodeChar_of_ascii (hp c hc)]

theorem any_head?_utf8 (cs : List Char) : (utf8 cs).head?.any (isByte p) = cs.head?.any p := by
  cases cs with
  | nil => rfl
  | cons c cs =>
    obtain ⟨b, bs, hbytes, he⟩ := exists_encodes c
    simp [hbytes, he.isByte hp]

theorem any_getLast?_utf8 (cs : List Char) :
    (utf8 cs).getLast?.any (isByte p) = cs.getLast?.any p := by
  rcases List.eq_nil_or_concat cs with rfl | ⟨cs, c, rfl⟩
  · rfl
  · obtain ⟨b, bs, hbytes, he⟩ := exists_encodes c
    have hlast : isByte p ((b :: bs).getLast (List.cons_ne_nil b bs)) = p c := by
      cases he with
      | ascii hc => exact (Encodes.ascii hc).isByte hp
      | wide hc hb hbs =>
        have hmem := List.getLast_mem (List.cons_ne_nil b bs)
        have hall : ∀ d ∈ b :: bs, 128 ≤ d.toNat := List.forall_mem_cons.2 ⟨hb, hbs⟩
        rw [isByte_of_wide hp (hall _ hmem), ← isByte_of_wide hp hb,
          (Encodes.wide hc hb hbs).isByte hp]
    simp [hbytes, List.getLast?_eq_some_getLast, hlast]

omit hp

/-- Characters of ASCII stand in front of a text if their bytes do. -/
theorem utf8_prefix_iff {ds : List Char} (hd : ∀ d ∈ ds, d.toNat < 128) (cs : List Char) :
    utf8 ds <+: utf8 cs ↔ ds <+: cs := by
  induction ds generalizing cs with
  | nil => simp
  | cons d ds ih =>
    obtain ⟨hd, hds⟩ := List.forall_mem_cons.1 hd
    cases cs with
    | nil => simp [utf8EncodeChar_of_ascii hd]
    | cons c cs =>
      obtain ⟨b, bs, hbytes, he⟩ := exists_encodes c
      rw [utf8_cons, utf8_cons, utf8EncodeChar_of_ascii hd, hbytes, List.singleton_append,
        List.cons_append, List.cons_prefix_cons, List.cons_prefix_cons, eq_comm,
        he.eq_iff hd, eq_comm]
      refine and_congr_right fun hc => ?_
      rw [← hc, utf8EncodeChar_of_ascii hd] at hbytes
      rw [← (List.cons.inj hbytes).2, List.nil_append, ih hds]

/-- A character of ASCII occurs as often as its byte. -/
theorem count_utf8 {d : Char} (hd : d.toNat < 128) (cs : List Char) :
    (utf8 cs).count d.toUInt8 = cs.count d := by
  induction cs with
  | nil => rfl
  | cons c cs ih =>
    obtain ⟨b, bs, hbytes, he⟩ := exists_encodes c
    have hzero : bs.count d.toUInt8 = 0 :=
      List.count_eq_zero.2 fun hmem => ne_of_wide (he.wide_of_mem _ hmem) hd rfl
    have heq : (b == d.toUInt8) = (c == d) := by
      rw [Bool.eq_iff_iff, beq_iff_eq, beq_iff_eq, he.eq_iff hd]
    rw [utf8_cons, hbytes, List.cons_append, List.count_cons, List.count_append, hzero, ih, heq,
      List.count_cons, Nat.zero_add]

/-! ## Places between characters -/

/-- The byte at a place, and the bytes behind it. -/
theorem getElem?_and_drop_of_drop {bs tail : List UInt8} {b : UInt8} {i : Nat}
    (h : bs.drop i = b :: tail) : bs[i]? = some b ∧ bs.drop (i + 1) = tail := by
  constructor
  · rw [← List.head?_drop, h, List.head?_cons]
  · rw [← List.drop_drop, h, List.drop_succ_cons, List.drop_zero]

/-- A place of a text between two characters, what stands before it, and what stands after it. -/
structure IsCut (s : String) (pos : Nat) (before rest : List Char) : Prop where
  text : s.toList = before ++ rest
  pos_eq : pos = utf8Len before

namespace IsCut

variable {s : String} {pos : Nat} {before rest : List Char}

theorem start (s : String) : IsCut s 0 [] s.toList :=
  ⟨rfl, rfl⟩

theorem bytesOf_eq (h : IsCut s pos before rest) : bytesOf s = utf8 before ++ utf8 rest := by
  rw [Lua.bytesOf_eq, h.text, utf8_append]

theorem length_bytesOf (h : IsCut s pos before rest) :
    (bytesOf s).length = pos + utf8Len rest := by
  rw [h.bytesOf_eq, List.length_append, length_utf8, length_utf8, h.pos_eq]

theorem drop_bytesOf (h : IsCut s pos before rest) : (bytesOf s).drop pos = utf8 rest := by
  rw [h.bytesOf_eq, List.drop_left' (by rw [length_utf8, h.pos_eq])]

theorem take_bytesOf (h : IsCut s pos before rest) : (bytesOf s).take pos = utf8 before := by
  rw [h.bytesOf_eq, List.take_left' (by rw [length_utf8, h.pos_eq])]

theorem getElem? (h : IsCut s pos before rest) : (bytesOf s)[pos]? = (utf8 rest).head? := by
  rw [← h.drop_bytesOf, List.head?_drop]

theorem advance {passed : List Char} (h : IsCut s pos before (passed ++ rest)) :
    IsCut s (pos + utf8Len passed) (before ++ passed) rest where
  text := by rw [h.text, List.append_assoc]
  pos_eq := by rw [h.pos_eq, String.utf8Len_append]

theorem advance_of_ascii {passed : List Char} (h : IsCut s pos before (passed ++ rest))
    (hpassed : ∀ c ∈ passed, c.toNat < 128) :
    IsCut s (pos + passed.length) (before ++ passed) rest :=
  utf8Len_of_ascii hpassed ▸ h.advance

/-- The place behind the next character. -/
theorem next {c : Char} (h : IsCut s pos before (c :: rest)) :
    IsCut s (pos + c.utf8Size) (before ++ [c]) rest where
  text := by rw [h.text, List.append_assoc, List.singleton_append]
  pos_eq := by
    rw [h.pos_eq, String.utf8Len_append, String.utf8Len_cons, String.utf8Len_nil, Nat.zero_add]

theorem next_of_ascii {c : Char} (h : IsCut s pos before (c :: rest)) (hc : c.toNat < 128) :
    IsCut s (pos + 1) (before ++ [c]) rest :=
  utf8Size_of_ascii hc ▸ h.next

/-- What stands between two places. -/
theorem exists_between {pos' : Nat} {before' rest' : List Char} (h : IsCut s pos before rest)
    (h' : IsCut s pos' before' rest') (hle : pos ≤ pos') :
    ∃ between, before' = before ++ between ∧ rest = between ++ rest' := by
  have hpos := h.pos_eq ▸ h'.pos_eq ▸ hle
  have htext := h.text.symm.trans h'.text
  rcases List.append_eq_append_iff.1 htext with ⟨more, hb, hr⟩ | ⟨more, hb, hr⟩
  · exact ⟨more, hb, hr⟩
  · rw [hb, String.utf8Len_append] at hpos
    obtain rfl : more = [] := String.utf8Len_eq_zero.1 (by omega)
    exact ⟨[], by simpa using hb.symm, by simpa using hr.symm⟩

/-- What stands before a place and after it is determined. -/
theorem unique {before' rest' : List Char} (h : IsCut s pos before rest)
    (h' : IsCut s pos before' rest') : before = before' ∧ rest = rest' := by
  obtain ⟨more, hb, hr⟩ := h.exists_between h' (Nat.le_refl pos)
  have hpos := h.pos_eq.symm.trans h'.pos_eq
  rw [hb, String.utf8Len_append] at hpos
  obtain rfl : more = [] := String.utf8Len_eq_zero.1 (by omega)
  exact ⟨by simpa using hb.symm, hr⟩

end IsCut

/-- A place is valid if it is between characters. -/
theorem isValid_iff_exists_isCut {s : String} {pos : Nat} :
    String.Pos.Raw.IsValid s ⟨pos⟩ ↔ ∃ before rest, IsCut s pos before rest := by
  rw [String.Pos.Raw.isValid_iff_exists_append]
  constructor
  · rintro ⟨t, u, rfl, hpos⟩
    refine ⟨t.toList, u.toList, String.toList_append, ?_⟩
    rw [String.utf8Len_toList]
    exact congrArg String.Pos.Raw.byteIdx hpos
  · rintro ⟨before, rest, htext, rfl⟩
    refine ⟨String.ofList before, String.ofList rest, ?_, ?_⟩
    · rw [← String.ofList_append, ← htext, String.ofList_toList]
    · rw [String.rawEndPos_ofList]

theorem extract_of_isCut {s : String} {pos : Nat} {before part rest : List Char}
    (h : IsCut s pos before (part ++ rest)) :
    String.Pos.Raw.extract s ⟨pos⟩ ⟨pos + utf8Len part⟩ = String.ofList part := by
  rw [← String.ofList_toList (s := s), h.text, h.pos_eq, ← List.append_assoc,
    String.extract_of_valid]

/-- **The text between two places** is what stands after the first and before the second. -/
theorem slice?_eq_some_iff {s : String} {part : List Char} {start stop : Nat} :
    slice? s start stop = some (String.ofList part) ↔
      ∃ before rest, IsCut s start before (part ++ rest) ∧ stop = start + utf8Len part := by
  rw [slice?, Option.ite_none_right_eq_some, Option.some.injEq]
  constructor
  · rintro ⟨⟨hle, hstart, hstop⟩, h⟩
    obtain ⟨before, rest, hb⟩ := isValid_iff_exists_isCut.1 hstart
    obtain ⟨before', rest', hb'⟩ := isValid_iff_exists_isCut.1 hstop
    obtain ⟨between, rfl, rfl⟩ := hb.exists_between hb' hle
    have hlen : stop = start + utf8Len between := by
      rw [hb'.pos_eq, String.utf8Len_append, hb.pos_eq]
    rw [hlen, extract_of_isCut hb, String.ofList_inj] at h
    exact ⟨before, rest', h ▸ hb, h ▸ hlen⟩
  · rintro ⟨before, rest, h, rfl⟩
    have hstart := isValid_iff_exists_isCut.2 ⟨_, _, h⟩
    have hstop := isValid_iff_exists_isCut.2 ⟨_, _, h.advance⟩
    exact ⟨⟨Nat.le_add_right _ _, hstart, hstop⟩, extract_of_isCut h⟩

-- the character has two bytes
example : slice "é" 1 2 = .error (.slice 1 2) := by decide +kernel

namespace IsCut

variable {s : String} {pos : Nat} {before rest : List Char}

theorem slice {part : List Char} (h : IsCut s pos before (part ++ rest)) :
    slice s pos (pos + utf8Len part) = .ok (String.ofList part) := by
  rw [Lua.slice, slice?_eq_some_iff.2 ⟨before, rest, h, rfl⟩]

theorem bytesFrom (h : IsCut s pos before rest) : bytesFrom s pos = .ok (utf8 rest) := by
  rw [Lua.bytesFrom, bytesBetween, if_pos, List.take_length, h.drop_bytesOf]
  exact ⟨h.length_bytesOf ▸ Nat.le_add_right _ _, Nat.le_refl _⟩

theorem bytesBetween {part : List Char} (h : IsCut s pos before (part ++ rest)) :
    bytesBetween s pos (pos + utf8Len part) = .ok (utf8 part) := by
  have hlen := h.advance.length_bytesOf
  rw [Lua.bytesBetween, if_pos ⟨Nat.le_add_right _ _, by omega⟩, h.advance.take_bytesOf,
    utf8_append, List.drop_left' (by rw [length_utf8, h.pos_eq])]

end IsCut

theorem byteAt_of_lt {s : String} {pos : Nat} (h : pos < (bytesOf s).length) :
    byteAt s pos = .ok ((bytesOf s)[pos]) := by
  rw [byteAt, List.getElem?_eq_getElem h]

end LuaBundle.Lua
