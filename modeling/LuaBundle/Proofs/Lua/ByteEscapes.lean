import LuaBundle.Proofs.Lua.Bytes
import LuaBundle.Proofs.Lua.Escapes

/-!
# Decoding a literal by places

The text between the quotes can be decoded by places: a place moves over its bytes, and where it
finds a backslash the escape behind it is read with accesses of its own.  This is the decoder that
copies byte by byte; `decode` is the one that goes through the characters.

* `unescape` — the decoder by places, made of `escapeAt` and `unescapeFrom`;
* `Agrees` — a reading by places gives what a reading of characters gives, and ends where it ends;
* `escapeAt_agrees` — so it is for each escape, whatever stands behind the backslash;
* `unescape_eq` — the decoder makes no access that fails, and its result is that of `decode`.
-/

set_option autoImplicit false

namespace LuaBundle.Lua

open String (utf8EncodeChar utf8Len)

/-! ## The decoder -/

theorem lt_of_any_getElem? {bs : List UInt8} {p : UInt8 → Bool} {i : Nat} (h : bs[i]?.any p) :
    i < bs.length := by
  by_contra hge
  rw [List.getElem?_eq_none (Nat.le_of_not_lt hge)] at h
  simp at h

/-- The first place from a given one on that is behind the blanks there. -/
def skipBlanks (s : String) (pos : Nat) : Nat :=
  if h : (bytesOf s)[pos]?.any (isByte isBlank) then skipBlanks s (pos + 1) else pos
termination_by (bytesOf s).length - pos
decreasing_by
  have := lt_of_any_getElem? h
  omega

/-- The byte of two hexadecimal digits, and the place behind them. -/
def hexAt? (raw : String) (pos : Nat) : Option (List UInt8 × Nat) := do
  let digits ← slice? raw pos (pos + 2)
  let value ← hexValue? digits.toList
  return ([UInt8.ofNat value], pos + 2)

/-- The byte of up to three decimal digits, and the place behind them.  The given place is the one
behind the first digit. -/
def decimalAt (raw : String) (pos : Nat) : Except Fault (Option (List UInt8 × Nat)) := do
  let n := (((← bytesFrom raw (pos - 1)).take 3).takeWhile (isByte Char.isDigit)).length
  let value := decimalValue (← slice raw (pos - 1) (pos - 1 + n)).toList
  return if value ≤ 255 then some ([UInt8.ofNat value], pos + (n - 1)) else none

/-- The text behind a character, if it starts with that. -/
def stripChar? (c : Char) (s : String) : Option String :=
  match s.toList with
  | [] => none
  | d :: cs => if d = c then some (String.ofList cs) else none

/-- The first place where a character stands. -/
def find? (c : Char) (s : String) : Option Nat :=
  if c ∈ s.toList then some (utf8Len (s.toList.takeWhile (· != c))) else none

/-- The bytes of a code point in braces, and the place behind it. -/
def codePointAt (raw : String) (pos : Nat) : Except Fault (Option (List UInt8 × Nat)) :=
  match (slice? raw pos (bytesOf raw).length).bind (stripChar? '\x7b') with
  | none => .ok none
  | some rest =>
    match find? '\x7d' rest with
    | none => .ok none
    | some close => do
      let digits ← slice rest 0 close
      return (codePoint? digits.toList).map fun c => (utf8EncodeChar c, pos + (close + 2))

/-- The bytes of an escape, and the place behind it.  It starts with the given byte, behind which
the given place is. -/
def escapeAt (raw : String) (escape : UInt8) (pos : Nat) :
    Except Fault (Option (List UInt8 × Nat)) :=
  if escape = 'z'.toUInt8 then .ok (some ([], skipBlanks raw pos))
  else if escape = 'x'.toUInt8 then .ok (hexAt? raw pos)
  else if escape = 'u'.toUInt8 then codePointAt raw pos
  else if isByte Char.isDigit escape then decimalAt raw pos
  else .ok ((simpleEscape? (Char.ofUInt8 escape)).map fun c => (utf8EncodeChar c, pos))

/-! ## Every step goes on -/

theorem le_skipBlanks (s : String) (pos : Nat) : pos ≤ skipBlanks s pos := by
  fun_induction skipBlanks s pos with
  | case1 pos _ ih => exact Nat.le_of_succ_le ih
  | case2 => exact Nat.le_refl _

theorem le_of_decimalAt {raw : String} {pos after : Nat} {bytes : List UInt8}
    (h : decimalAt raw pos = .ok (some (bytes, after))) : pos ≤ after := by
  simp only [decimalAt, bind, Except.bind, pure, Except.pure] at h
  split at h
  · simp at h
  split at h
  · simp at h
  · simp only [Except.ok.injEq, Option.ite_none_right_eq_some, Option.some.injEq,
      Prod.mk.injEq] at h
    exact h.2.2 ▸ Nat.le_add_right _ _

theorem le_of_codePointAt {raw : String} {pos after : Nat} {bytes : List UInt8}
    (h : codePointAt raw pos = .ok (some (bytes, after))) : pos ≤ after := by
  simp only [codePointAt, bind, Except.bind, pure, Except.pure] at h
  split at h
  · simp at h
  split at h
  · simp at h
  split at h
  · simp at h
  · simp only [Except.ok.injEq, Option.map_eq_some_iff, Prod.mk.injEq] at h
    obtain ⟨_, _, _, rfl⟩ := h
    exact Nat.le_add_right _ _

/-- An escape does not end before it starts. -/
theorem le_of_escapeAt {raw : String} {escape : UInt8} {pos after : Nat} {bytes : List UInt8}
    (h : escapeAt raw escape pos = .ok (some (bytes, after))) : pos ≤ after := by
  unfold escapeAt at h
  split at h
  · simp only [Except.ok.injEq, Option.some.injEq, Prod.mk.injEq] at h
    exact h.2 ▸ le_skipBlanks raw pos
  split at h
  · simp only [hexAt?, Except.ok.injEq, Option.bind_eq_bind, Option.bind_eq_some_iff,
      Option.pure_def, Option.some.injEq, Prod.mk.injEq] at h
    obtain ⟨_, _, _, _, _, rfl⟩ := h
    exact Nat.le_add_right _ _
  split at h
  · exact le_of_codePointAt h
  split at h
  · exact le_of_decimalAt h
  · simp only [Except.ok.injEq, Option.map_eq_some_iff, Prod.mk.injEq] at h
    obtain ⟨_, _, _, rfl⟩ := h
    exact Nat.le_refl _

/-- The bytes that are denoted from a place on, behind those that were denoted before it. -/
def unescapeFrom (raw : String) (pos : Nat) (out : List UInt8) :
    Except Fault (Option (List UInt8)) :=
  match hb : (bytesOf raw)[pos]? with
  | none => .ok (some out)
  | some b =>
    have := (List.getElem?_eq_some_iff.1 hb).1
    if b = '\\'.toUInt8 then
      match (bytesOf raw)[pos + 1]? with
      | none => .ok none
      | some escape =>
        match he : escapeAt raw escape (pos + 2) with
        | .error fault => .error fault
        | .ok none => .ok none
        | .ok (some (bytes, after)) =>
          have := le_of_escapeAt he
          unescapeFrom raw after (out ++ bytes)
    else
      unescapeFrom raw (pos + 1) (out ++ [b])
termination_by (bytesOf raw).length - pos

/-- The text that a literal with the given text between its quotes denotes. -/
def unescape (raw : String) : Except Fault (Option String) :=
  if '\\' ∈ raw.toList then do
    let out? ← unescapeFrom raw 0 []
    return out?.bind fun out => String.fromUTF8? ⟨out.toArray⟩
  else
    .ok (some raw)

/-! ## Kinds of characters -/

theorem ascii_isBlank : Ascii isBlank := by
  intro c hc
  simp only [isBlank, Bool.or_eq_true, beq_iff_eq] at hc
  rcases hc with (((rfl | rfl) | rfl) | rfl) | rfl <;> decide

theorem ascii_isDigit : Ascii Char.isDigit := fun c hc =>
  Nat.lt_of_le_of_lt (Char.isDigit_iff_toNat.1 hc).2 (by decide)

theorem ascii_simpleEscape? : Ascii fun c => (simpleEscape? c).isSome := by
  intro c hc
  obtain ⟨d, hd⟩ := Option.isSome_iff_exists.1 hc
  obtain ⟨b, hb, _⟩ := exists_mem_byteEscapes hd
  have hall : ∀ e ∈ byteEscapes, e.1.toNat < 128 := by decide
  exact hall _ hb

theorem toNat_lt_of_spells {digits : List Char} {n : Nat} (h : Spells 16 digits n) :
    ∀ c ∈ digits, c.toNat < 128 := by
  have hall : ∀ value < 16, (Nat.digitChar value).toNat < 128 ∧
      (Nat.digitChar value).toUpper.toNat < 128 := by decide
  intro c hc
  obtain ⟨value, hlt, rfl | rfl⟩ := h.exists_of_mem hc
  · exact (hall value hlt).1
  · exact (hall value hlt).2

/-! ## Readings by places and readings of characters -/

/-- A reading by places makes no access that fails, it gives what a reading of characters gives, and
it ends where that ends. -/
inductive Agrees {α : Type} (s : String) :
    Except Fault (Option (α × Nat)) → Option (α × List Char) → Prop
  | nothing : Agrees s (.ok none) none
  | read {a : α} {pos : Nat} {before rest : List Char} (h : IsCut s pos before rest) :
      Agrees s (.ok (some (a, pos))) (some (a, rest))

variable {raw : String} {pos : Nat} {before rest : List Char}

/-- The blanks at a place are passed. -/
theorem IsCut.skipBlanks (h : IsCut raw pos before rest) :
    IsCut raw (skipBlanks raw pos) (before ++ rest.takeWhile isBlank) (rest.dropWhile isBlank) := by
  induction rest generalizing pos before with
  | nil =>
    rw [Lua.skipBlanks, dif_neg (by simp [h.getElem?])]
    simpa using h
  | cons c rest ih =>
    have hany : (bytesOf raw)[pos]?.any (isByte isBlank) = isBlank c := by
      rw [h.getElem?, any_head?_utf8 ascii_isBlank]
      rfl
    rw [Lua.skipBlanks]
    cases hc : isBlank c with
    | false =>
      rw [dif_neg (by simp [hany, hc]), List.takeWhile_cons_of_neg (by simp [hc]),
        List.dropWhile_cons_of_neg (by simp [hc]), List.append_nil]
      exact h
    | true =>
      rw [dif_pos (by simp [hany, hc]), List.takeWhile_cons_of_pos hc,
        List.dropWhile_cons_of_pos hc]
      simpa using ih (h.next_of_ascii (ascii_isBlank c hc))

/-! ## Numbers -/

theorem readEscape_hex_iff {bytes : List UInt8} {after : List Char} :
    readEscape ('x' :: rest) = some (bytes, after) ↔
      ∃ hi lo n, rest = hi :: lo :: after ∧ Spells 16 [hi, lo] n ∧ bytes = [UInt8.ofNat n] := by
  constructor
  · intro h
    match rest, h with
    | [], h | [_], h => simp [readEscape, simpleEscape?] at h
    | hi :: lo :: tail, h =>
      simp only [readEscape, Option.bind_eq_bind, Option.bind_eq_some_iff, Option.pure_def,
        Option.some.injEq, Prod.mk.injEq] at h
      obtain ⟨m, hm, value, hvalue, rfl, rfl⟩ := h
      exact ⟨hi, lo, _, rfl, spells_pair_iff.2 ⟨m, value, hm, hvalue, rfl⟩, rfl⟩
  · rintro ⟨hi, lo, n, rfl, h, rfl⟩
    exact (IsReadEscape.proper (.hex h)).readEscape_append

/-- Two bytes are hexadecimal digits if two characters are: a part of the text that ends inside of
a character is none, and a character of two bytes is no digit. -/
theorem hexAt?_eq_some_iff (h : IsCut raw pos before rest) {bytes : List UInt8} {after : Nat} :
    hexAt? raw pos = some (bytes, after) ↔
      ∃ hi lo n tail, rest = hi :: lo :: tail ∧ Spells 16 [hi, lo] n ∧ bytes = [UInt8.ofNat n] ∧
        after = pos + 2 := by
  simp only [hexAt?, Option.bind_eq_bind, Option.bind_eq_some_iff, Option.pure_def,
    Option.some.injEq, Prod.mk.injEq]
  constructor
  · rintro ⟨part, hpart, n, hn, rfl, rfl⟩
    rw [← String.ofList_toList (s := part), slice?_eq_some_iff] at hpart
    obtain ⟨before', tail, hcut, hlen⟩ := hpart
    obtain ⟨-, hspells⟩ := hexValue?_eq_some_iff.1 hn
    rw [utf8Len_of_ascii (toNat_lt_of_spells hspells)] at hlen
    obtain ⟨hi, lo, hpart⟩ := List.length_eq_two.1 (Nat.add_left_cancel hlen).symm
    rw [hpart] at hcut hspells
    exact ⟨hi, lo, n, tail, (h.unique hcut).2, hspells, rfl, rfl⟩
  · rintro ⟨hi, lo, n, tail, rfl, hspells, rfl, rfl⟩
    have hpart : slice? raw pos (pos + 2) = some (String.ofList [hi, lo]) :=
      slice?_eq_some_iff.2
        ⟨before, tail, h, by rw [utf8Len_of_ascii (toNat_lt_of_spells hspells)]; rfl⟩
    refine ⟨_, hpart, n, ?_, rfl, rfl⟩
    rw [String.toList_ofList]
    exact hexValue?_eq_some_iff.2 ⟨List.cons_ne_nil _ _, hspells⟩

theorem hexAt?_agrees (h : IsCut raw pos before rest) :
    Agrees raw (.ok (hexAt? raw pos)) (readEscape ('x' :: rest)) := by
  cases hread : readEscape ('x' :: rest) with
  | some read =>
    obtain ⟨bytes, after⟩ := read
    obtain ⟨hi, lo, n, rfl, hspells, rfl⟩ := readEscape_hex_iff.1 hread
    rw [(hexAt?_eq_some_iff h).2 ⟨hi, lo, n, after, rfl, hspells, rfl, rfl⟩]
    exact .read (IsCut.advance_of_ascii h (toNat_lt_of_spells hspells))
  | none =>
    cases hhex : hexAt? raw pos with
    | none => exact .nothing
    | some read =>
      obtain ⟨hi, lo, n, after, rfl, hspells, -, -⟩ := (hexAt?_eq_some_iff h).1 hhex
      rw [readEscape_hex_iff.2 ⟨hi, lo, n, rfl, hspells, rfl⟩] at hread
      simp at hread

/-- The digits that a number starts with are found among the bytes. -/
theorem length_takeWhile_take_utf8 {p : Char → Bool} (hp : Ascii p) (n : Nat) (cs : List Char) :
    (((utf8 cs).take n).takeWhile (isByte p)).length = ((cs.take n).takeWhile p).length := by
  have hascii : ∀ c ∈ cs.takeWhile p, c.toNat < 128 :=
    fun c hc => hp c (List.all_eq_true.1 List.all_takeWhile c hc)
  rw [← List.take_takeWhile, takeWhile_utf8 hp, ← List.take_takeWhile, List.length_take,
    List.length_take, length_utf8, utf8Len_of_ascii hascii]

theorem decimalAt_agrees {c : Char} (h : IsCut raw pos before (c :: rest)) (hc : c.isDigit) :
    Agrees raw (decimalAt raw (pos + 1)) (readEscape (c :: rest)) := by
  rw [readEscape_of_isDigit hc]
  generalize hdigits : ((c :: rest).take 3).takeWhile Char.isDigit = digits
  have hstart : digits <+: c :: rest :=
    hdigits ▸ (List.takeWhile_prefix _).trans (List.take_prefix _ _)
  have hascii : ∀ d ∈ digits, d.toNat < 128 := fun d hd =>
    ascii_isDigit d (List.all_eq_true.1 List.all_takeWhile d (hdigits ▸ hd))
  have hpos : 0 < digits.length := by
    rw [← hdigits]
    simp [hc]
  have hn := length_takeWhile_take_utf8 ascii_isDigit 3 (c :: rest)
  rw [hdigits] at hn
  have happ := List.prefix_iff_eq_append.1 hstart
  have hcut : IsCut raw pos before (digits ++ (c :: rest).drop digits.length) := by rwa [happ]
  have hslice := hcut.slice
  rw [utf8Len_of_ascii hascii] at hslice
  have hread : decimalAt raw (pos + 1) = .ok (if decimalValue digits ≤ 255 then
      some ([UInt8.ofNat (decimalValue digits)], pos + digits.length) else none) := by
    have hafter : pos + 1 + (digits.length - 1) = pos + digits.length := by omega
    simp only [decimalAt, Nat.add_sub_cancel, h.bytesFrom, bind, Except.bind, hn, hslice,
      String.toList_ofList, hafter]
    rfl
  rw [hread]
  split
  · exact .read (hcut.advance_of_ascii hascii)
  · exact .nothing

/-! ## Code points -/

theorem readEscape_codePoint_of_head? (hrest : rest.head? ≠ some '\x7b') :
    readEscape ('u' :: rest) = none := by
  cases rest with
  | nil => simp [readEscape, simpleEscape?]
  | cons c rest =>
    have hc : c ≠ '\x7b' := fun he => hrest (congrArg some he)
    simp [readEscape, simpleEscape?, hc]

theorem readEscape_codePoint_of_not_mem (hrest : '\x7d' ∉ rest) :
    readEscape ('u' :: '\x7b' :: rest) = none := by
  have hdrop : rest.dropWhile (· != '\x7d') = [] :=
    List.dropWhile_eq_nil_iff.2 fun c hc => bne_iff_ne.2 fun he => hrest (he ▸ hc)
  simp only [readEscape, hdrop]

theorem readEscape_codePoint_append {digits : List Char} (hdigits : '\x7d' ∉ digits)
    (after : List Char) :
    readEscape ('u' :: '\x7b' :: (digits ++ '\x7d' :: after)) =
      (codePoint? digits).map fun c => (utf8EncodeChar c, after) := by
  have hp : ∀ c ∈ digits, (c != '\x7d') := fun c hc => bne_iff_ne.2 fun he => hdigits (he ▸ hc)
  have hr : ∀ c ∈ ('\x7d' :: after).head?, ¬ (c != '\x7d') := by simp
  simp only [readEscape, takeWhile_append_of_head? hp hr, dropWhile_append_of_head? hp hr]
  cases codePoint? digits <;> rfl

theorem stripChar?_ofList (c : Char) (cs : List Char) :
    stripChar? c (String.ofList (c :: cs)) = some (String.ofList cs) := by
  simp [stripChar?]

theorem stripChar?_of_head? {c : Char} (hrest : rest.head? ≠ some c) :
    stripChar? c (String.ofList rest) = none := by
  rw [stripChar?, String.toList_ofList]
  cases rest with
  | nil => rfl
  | cons d rest => exact if_neg fun he => hrest (congrArg some he)

theorem find?_ofList_append {c : Char} {passed : List Char} (hpassed : c ∉ passed)
    (after : List Char) :
    find? c (String.ofList (passed ++ c :: after)) = some (utf8Len passed) := by
  have hp : ∀ d ∈ passed, (d != c) := fun d hd => bne_iff_ne.2 fun he => hpassed (he ▸ hd)
  have hr : ∀ d ∈ (c :: after).head?, ¬ (d != c) := by simp
  rw [find?, String.toList_ofList, if_pos (by simp), takeWhile_append_of_head? hp hr]

theorem find?_of_not_mem {c : Char} (hrest : c ∉ rest) : find? c (String.ofList rest) = none := by
  rw [find?, String.toList_ofList, if_neg hrest]

theorem codePointAt_agrees (h : IsCut raw pos before rest) :
    Agrees raw (codePointAt raw pos) (readEscape ('u' :: rest)) := by
  have htail : slice? raw pos (bytesOf raw).length = some (String.ofList rest) :=
    slice?_eq_some_iff.2 ⟨before, [], by rwa [List.append_nil], h.length_bytesOf⟩
  rw [codePointAt, htail, Option.bind_some]
  by_cases hopen : rest.head? = some '\x7b'
  · obtain ⟨inner, rfl⟩ := List.head?_eq_some_iff.1 hopen
    rw [stripChar?_ofList]
    by_cases hclose : '\x7d' ∈ inner
    · obtain ⟨digits, after, rfl, hdigits⟩ := List.eq_append_cons_of_mem hclose
      have hslice : slice (String.ofList (digits ++ '\x7d' :: after)) 0 (utf8Len digits) =
          .ok (String.ofList digits) := by
        have hstart := IsCut.start (String.ofList (digits ++ '\x7d' :: after))
        rw [String.toList_ofList] at hstart
        simpa using hstart.slice
      rw [readEscape_codePoint_append hdigits]
      simp only [find?_ofList_append hdigits, hslice, bind, Except.bind, String.toList_ofList]
      cases codePoint? digits with
      | none => exact .nothing
      | some c =>
        have hcut : IsCut raw pos before (('\x7b' :: digits ++ ['\x7d']) ++ after) := by
          simpa using h
        have hlen : utf8Len ('\x7b' :: digits ++ ['\x7d']) = utf8Len digits + 2 := by
          rw [String.utf8Len_append, String.utf8Len_cons]
          rfl
        exact .read (hlen ▸ hcut.advance)
    · rw [readEscape_codePoint_of_not_mem hclose]
      simp only [find?_of_not_mem hclose]
      exact .nothing
  · rw [readEscape_codePoint_of_head? hopen, stripChar?_of_head? hopen]
    exact .nothing

/-! ## Escapes -/

theorem readEscape_of_ne {c : Char} (hz : c ≠ 'z') (hx : c ≠ 'x') (hu : c ≠ 'u')
    (hdigit : ¬ c.isDigit) :
    readEscape (c :: rest) = (simpleEscape? c).map fun d => (utf8EncodeChar d, rest) := by
  simp [readEscape, hx, hu, hdigit]

/-- **An escape is read by places** as it is read as characters, whatever stands behind the
backslash. -/
theorem escapeAt_agrees {c : Char} {b : UInt8} {bs : List UInt8}
    (h : IsCut raw pos before (c :: rest)) (hbytes : utf8EncodeChar c = b :: bs) :
    Agrees raw (escapeAt raw b (pos + 1)) (readEscape (c :: rest)) := by
  obtain ⟨b', bs', hbytes', he⟩ := exists_encodes c
  obtain ⟨rfl, rfl⟩ := List.cons.inj (hbytes.symm.trans hbytes')
  simp only [escapeAt, he.eq_iff (show 'z'.toNat < 128 by decide),
    he.eq_iff (show 'x'.toNat < 128 by decide), he.eq_iff (show 'u'.toNat < 128 by decide),
    he.isByte ascii_isDigit]
  split
  · next hz =>
    subst hz
    exact .read (h.next_of_ascii (by decide)).skipBlanks
  split
  · next hx =>
    subst hx
    exact hexAt?_agrees (h.next_of_ascii (by decide))
  split
  · next hu =>
    subst hu
    exact codePointAt_agrees (h.next_of_ascii (by decide))
  split
  · next hdigit => exact decimalAt_agrees h hdigit
  · next hz hx hu hdigit =>
    rw [readEscape_of_ne hz hx hu hdigit]
    cases he with
    | ascii hc =>
      rw [ofUInt8_toUInt8 hc]
      cases simpleEscape? c with
      | none => exact .nothing
      | some d => exact .read (h.next_of_ascii hc)
    | wide hc hb =>
      have hnone (d : Char) (hd : 128 ≤ d.toNat) : simpleEscape? d = none :=
        Option.not_isSome_iff_eq_none.1 fun h =>
          absurd (ascii_simpleEscape? d h) (Nat.not_lt.2 hd)
      rw [hnone c hc, hnone (Char.ofUInt8 b) hb]
      exact .nothing

/-! ## Bodies -/

/-- Bytes that are no backslash are copied. -/
theorem unescapeFrom_of_drop {bs tail : List UInt8} (h : (bytesOf raw).drop pos = bs ++ tail)
    (hbs : ∀ b ∈ bs, b ≠ '\\'.toUInt8) (out : List UInt8) :
    unescapeFrom raw pos out = unescapeFrom raw (pos + bs.length) (out ++ bs) := by
  induction bs generalizing pos out with
  | nil => rw [List.length_nil, Nat.add_zero, List.append_nil]
  | cons b bs ih =>
    obtain ⟨hb, hbs⟩ := List.forall_mem_cons.1 hbs
    obtain ⟨hget, htail⟩ := getElem?_and_drop_of_drop h
    have hstep : unescapeFrom raw pos out = unescapeFrom raw (pos + 1) (out ++ [b]) := by
      rw [unescapeFrom]
      split
      · simp_all
      · next b' hget' =>
        obtain rfl := Option.some.inj (hget.symm.trans hget')
        rw [if_neg hb]
    rw [hstep, ih htail hbs, List.append_assoc, Nat.add_assoc, Nat.add_comm 1]
    rfl

/-- What is done at a backslash. -/
theorem unescapeFrom_of_backslash (hb : (bytesOf raw)[pos]? = some '\\'.toUInt8)
    (out : List UInt8) :
    unescapeFrom raw pos out =
      match (bytesOf raw)[pos + 1]? with
      | none => .ok none
      | some escape =>
        match escapeAt raw escape (pos + 2) with
        | .error fault => .error fault
        | .ok none => .ok none
        | .ok (some (bytes, after)) => unescapeFrom raw after (out ++ bytes) := by
  rw [unescapeFrom]
  split
  · simp_all
  · next b hget =>
    obtain rfl := Option.some.inj (hb.symm.trans hget)
    rw [if_pos rfl]
    split
    · rfl
    · split
      all_goals
        next he => simp only [he]

/-- After an escape the decoder goes on where the reading of characters does. -/
theorem exists_unescapeFrom_eq {c : Char} (h : IsCut raw pos before ('\\' :: c :: rest))
    (out : List UInt8) :
    ∃ result, Agrees raw result (readEscape (c :: rest)) ∧
      unescapeFrom raw pos out =
        match result with
        | .error fault => .error fault
        | .ok none => .ok none
        | .ok (some (bytes, after)) => unescapeFrom raw after (out ++ bytes) := by
  obtain ⟨b, bs, hbytes, _⟩ := exists_encodes c
  have hnext := h.next_of_ascii (by decide)
  refine ⟨_, escapeAt_agrees hnext hbytes, ?_⟩
  rw [unescapeFrom_of_backslash (by rw [h.getElem?]; rfl), hnext.getElem?, utf8_cons, hbytes]
  rfl

theorem unescapeFrom_eq (h : IsCut raw pos before rest) (out : List UInt8) :
    unescapeFrom raw pos out = .ok ((decodeBytes rest).map (out ++ ·)) := by
  fun_induction decodeBytes rest generalizing pos before out with
  | case1 =>
    rw [unescapeFrom]
    split
    · simp
    · next b hb => simp [h.getElem?] at hb
  | case2 rest hread =>
    cases rest with
    | nil =>
      have hend : (bytesOf raw)[pos + 1]? = none := (h.next_of_ascii (by decide)).getElem?
      rw [unescapeFrom_of_backslash (by rw [h.getElem?]; rfl), hend]
      rfl
    | cons c rest =>
      obtain ⟨result, hagrees, heq⟩ := exists_unescapeFrom_eq h out
      rw [hread] at hagrees
      cases hagrees
      exact heq
  | case3 rest bytes after hread _ ih =>
    cases rest with
    | nil => simp [readEscape] at hread
    | cons c rest =>
      obtain ⟨result, hagrees, heq⟩ := exists_unescapeFrom_eq h out
      rw [hread] at hagrees
      cases hagrees with
      | read hafter =>
        simp only [heq, ih hafter, Option.map_map, Function.comp_def, List.append_assoc]
  | case4 c rest hc ih =>
    have hne := ne_of_mem_utf8EncodeChar (show '\\'.toNat < 128 by decide) (fun he => hc he)
    rw [unescapeFrom_of_drop (h.drop_bytesOf.trans (utf8_cons c rest)) hne,
      String.length_utf8EncodeChar, ih h.next]
    cases decodeBytes rest with
    | none => rfl
    | some more => simp

theorem decodeBytes_of_not_mem {cs : List Char} (h : '\\' ∉ cs) :
    decodeBytes cs = some (utf8 cs) := by
  induction cs with
  | nil => rw [decodeBytes, utf8_nil]
  | cons c cs ih =>
    obtain ⟨hc, hcs⟩ := not_or.1 (List.mem_cons.not.1 h)
    rw [decodeBytes_char (Ne.symm hc), ih hcs, Option.map_some, utf8_cons]

/-- **The decoder by places makes no access that fails**, and it is `decode`. -/
theorem unescape_eq (raw : String) : unescape raw = .ok (decode raw.toList) := by
  rw [unescape, decode]
  split
  · rw [unescapeFrom_eq (IsCut.start raw)]
    simp only [List.nil_append, Option.map_id', bind, Except.bind]
    rfl
  · next hraw =>
    have hbytes : raw.toByteArray = ⟨(utf8 raw.toList).toArray⟩ := by
      rw [← bytesOf_eq, bytesOf]
    rw [decodeBytes_of_not_mem hraw, Option.bind_eq_bind, Option.bind_some,
      fromUTF8?_eq_some_iff.2 hbytes]

end LuaBundle.Lua
