import LuaBundle.Proofs.Lua.ByteEscapes

/-!
# Reading a call by places

The argument of a call can be read by places.  The closing quote is looked for byte by byte, and
behind a backslash one byte is passed without being looked at.  That byte can be the first of
several that make one character, or there can be none; then the place is inside of a character or
behind the end of the text.  Neither does harm: the other bytes of a character are none of ASCII, so
none of them ends the literal, and behind the end no quote is found.

* `callAt` — the reader by places, made of `literalStart`, `closingQuote` and `unescape`;
* `closingQuote_eq` — the quote that is found is the one behind the body;
* `callAt_agrees` — the reader makes no access that fails, and it finds the argument that
  `argument?` finds.
-/

set_option autoImplicit false

namespace LuaBundle.Lua

open String (utf8EncodeChar utf8Len)

/-! ## The reader -/

/-- The place where the literal of a call has to start. -/
def literalStart (source : String) (pos : Nat) : Nat :=
  let pos := skipBlanks source pos
  if (bytesOf source)[pos]? = some '('.toUInt8 then skipBlanks source (pos + 1) else pos

/-- The place of the quote that ends a literal, looked for from a place inside of it on. -/
def closingQuote (source : String) (quote : UInt8) (pos : Nat) : Option Nat :=
  match h : (bytesOf source)[pos]? with
  | none => none
  | some b =>
    have := (List.getElem?_eq_some_iff.1 h).1
    if b = quote then some pos
    else if b = '\n'.toUInt8 then none
    else if b = '\\'.toUInt8 then
      if (bytesOf source)[pos + 1]? = some 'z'.toUInt8 then
        have := le_skipBlanks source (pos + 2)
        closingQuote source quote (skipBlanks source (pos + 2))
      else
        closingQuote source quote (pos + 2)
    else
      closingQuote source quote (pos + 1)
termination_by (bytesOf source).length - pos

/-- The name of a call, and the place behind its closing quote.  The given place is the one behind
the keyword. -/
def callAt (source : String) (pos : Nat) : Except Fault (Option (String × Nat)) :=
  let start := literalStart source pos
  match (bytesOf source)[start]? with
  | none => .ok none
  | some quote =>
    if quote = '"'.toUInt8 ∨ quote = '\x27'.toUInt8 then
      match closingQuote source quote (start + 1) with
      | none => .ok none
      | some stop => do
        let name? ← unescape (← slice source (start + 1) stop)
        return name?.bind fun name => if name = "" then none else some (name, stop + 1)
    else
      .ok none

variable {source : String} {pos : Nat} {before rest : List Char}

/-! ## The opening -/

theorem IsCut.literalStart (h : IsCut source pos before rest) :
    IsCut source (literalStart source pos) (before ++ rest.take (openingLength rest))
      (rest.drop (openingLength rest)) := by
  have hblanks := h.skipBlanks
  simp only [Lua.literalStart, hblanks.getElem?,
    head?_utf8_eq_some_iff (show '('.toNat < 128 by decide), openingLength, drop_length_takeWhile]
  split
  · next hparen =>
    obtain ⟨inner, hinner⟩ := List.head?_eq_some_iff.1 hparen
    rw [hinner] at hblanks
    have hinside := (hblanks.next_of_ascii (by decide)).skipBlanks
    simp only [hinner, Nat.add_assoc, List.take_add, ← List.drop_drop, drop_length_takeWhile,
      take_length_takeWhile, List.take_succ_cons, List.drop_succ_cons, List.take_zero,
      List.drop_zero]
    simpa using hinside
  · next hparen =>
    split
    · next inner hinner => exact absurd (hinner ▸ rfl) hparen
    · rw [take_length_takeWhile, drop_length_takeWhile]
      exact hblanks

/-! ## The closing quote -/

/-- Bytes that end no literal and escape nothing are passed. -/
theorem closingQuote_of_drop {quote : UInt8} {bs tail : List UInt8}
    (h : (bytesOf source).drop pos = bs ++ tail)
    (hbs : ∀ b ∈ bs, b ≠ quote ∧ b ≠ '\n'.toUInt8 ∧ b ≠ '\\'.toUInt8) :
    closingQuote source quote pos = closingQuote source quote (pos + bs.length) := by
  induction bs generalizing pos with
  | nil => rfl
  | cons b bs ih =>
    obtain ⟨⟨hq, hn, hb⟩, hbs⟩ := List.forall_mem_cons.1 hbs
    obtain ⟨hget, htail⟩ := getElem?_and_drop_of_drop h
    have hstep : closingQuote source quote pos = closingQuote source quote (pos + 1) := by
      rw [closingQuote]
      split
      · simp_all
      · next b' hget' =>
        obtain rfl := Option.some.inj (hget.symm.trans hget')
        rw [if_neg hq, if_neg hn, if_neg hb]
    rw [hstep, ih htail hbs, Nat.add_assoc, Nat.add_comm 1]
    rfl

theorem IsQuote.toNat_lt {quote : Char} (h : IsQuote quote) : quote.toNat < 128 := by
  rcases h with rfl | rfl <;> decide

/-- The bytes of a character that ends no literal and escapes nothing are passed. -/
theorem closingQuote_of_char {quote c : Char} (hq : IsQuote quote)
    (h : IsCut source pos before (c :: rest)) (hc : c ≠ quote ∧ c ≠ '\n' ∧ c ≠ '\\') :
    closingQuote source quote.toUInt8 pos =
      closingQuote source quote.toUInt8 (pos + c.utf8Size) := by
  have hdrop := h.drop_bytesOf.trans (utf8_cons c rest)
  rw [closingQuote_of_drop hdrop fun b hb =>
      ⟨ne_of_mem_utf8EncodeChar hq.toNat_lt hc.1 b hb,
        ne_of_mem_utf8EncodeChar (by decide) hc.2.1 b hb,
        ne_of_mem_utf8EncodeChar (by decide) hc.2.2 b hb⟩,
    String.length_utf8EncodeChar]

/-- The bytes of a character behind the first one are passed, whichever character it is. -/
theorem closingQuote_of_first {quote c : Char} (hq : IsQuote quote)
    (h : IsCut source pos before (c :: rest)) :
    closingQuote source quote.toUInt8 (pos + 1) =
      closingQuote source quote.toUInt8 (pos + c.utf8Size) := by
  obtain ⟨b, bs, hbytes, he⟩ := exists_encodes c
  have hdrop := h.drop_bytesOf
  rw [utf8_cons, hbytes] at hdrop
  rw [closingQuote_of_drop (getElem?_and_drop_of_drop hdrop).2 fun b hb =>
      have hwide := he.wide_of_mem b hb
      ⟨ne_of_wide hwide hq.toNat_lt, ne_of_wide hwide (by decide), ne_of_wide hwide (by decide)⟩,
    utf8Size_of_bytes hbytes, Nat.add_assoc, Nat.add_comm 1]

/-- What is done at a backslash. -/
theorem closingQuote_of_backslash {quote : Char} (hq : IsQuote quote)
    (h : IsCut source pos before ('\\' :: rest)) :
    closingQuote source quote.toUInt8 pos =
      if rest.head? = some 'z' then
        closingQuote source quote.toUInt8 (skipBlanks source (pos + 2))
      else
        closingQuote source quote.toUInt8 (pos + 2) := by
  have hne : '\\'.toUInt8 ≠ quote.toUInt8 := by
    rcases hq with rfl | rfl <;> decide
  have hnext := h.next_of_ascii (by decide)
  rw [closingQuote]
  split
  · next hget =>
    rw [h.getElem?] at hget
    exact absurd hget (by simp [utf8EncodeChar_of_ascii])
  · next b hget =>
    rw [h.getElem?] at hget
    obtain rfl : '\\'.toUInt8 = b := Option.some.inj hget
    rw [if_neg hne, if_neg (by decide), if_pos rfl, hnext.getElem?]
    simp only [head?_utf8_eq_some_iff (show 'z'.toNat < 128 by decide)]

/-- A unit of a body is passed. -/
theorem closingQuote_of_bodyUnit? {quote : Char} (hq : IsQuote quote) {cs unit : List Char}
    (hu : bodyUnit? quote cs = some (unit, rest)) (h : IsCut source pos before cs) :
    closingQuote source quote.toUInt8 pos =
      closingQuote source quote.toUInt8 (pos + utf8Len unit) := by
  simp only [bodyUnit?] at hu
  split at hu
  · simp at hu
  · next tail =>
    obtain ⟨rfl, rfl⟩ := Prod.mk.inj (Option.some.inj hu)
    have hblanks := ((h.next_of_ascii (by decide)).next_of_ascii (by decide)).skipBlanks
    rw [closingQuote_of_backslash hq h, List.head?_cons, if_pos rfl, hblanks.pos_eq, h.pos_eq]
    simp only [String.utf8Len_append, String.utf8Len_cons, String.utf8Len_nil]
    congr 1
    ac_rfl
  · next c tail hz =>
    obtain ⟨rfl, rfl⟩ := Prod.mk.inj (Option.some.inj hu)
    rw [closingQuote_of_backslash hq h, List.head?_cons, if_neg (fun he => hz (Option.some.inj he))]
    -- only the first byte of the character was passed, but the others do no harm
    have hothers := closingQuote_of_first hq (h.next_of_ascii (by decide))
    have hbackslash : '\\'.utf8Size = 1 := by decide
    rw [show pos + 2 = pos + 1 + 1 from rfl, hothers]
    simp only [String.utf8Len_cons, String.utf8Len_nil, hbackslash]
    congr 1
    omega
  · simp at hu
  · next c tail _ hmore hlast =>
    split at hu
    · simp at hu
    · next hc =>
      obtain ⟨rfl, rfl⟩ := Prod.mk.inj (Option.some.inj hu)
      obtain ⟨hcq, hcn⟩ := not_or.1 hc
      have hcb : c ≠ '\\' := fun hb => by
        cases tail with
        | nil => exact hlast hb rfl
        | cons d tail => exact hmore d tail hb rfl
      rw [closingQuote_of_char hq h ⟨hcq, hcn, hcb⟩]
      simp

theorem takeBody_of_eq_some {quote : Char} {cs unit : List Char}
    (h : bodyUnit? quote cs = some (unit, rest)) :
    takeBody quote cs = (takeBody quote rest).map fun r => (unit ++ r.1, r.2) := by
  simp only [takeBody, bodyUnits_of_eq_some h]
  rcases bodyUnits quote rest with ⟨body, _ | ⟨c, after⟩⟩
  · rfl
  · dsimp only
    split <;> rfl

/-- Where there is no unit the text ends, too early or behind a backslash, or a quote or a line
break stands there. -/
theorem cases_of_bodyUnit?_eq_none {quote c : Char} (h : bodyUnit? quote (c :: rest) = none) :
    c = '\\' ∧ rest = [] ∨ c ≠ '\\' ∧ (c = quote ∨ c = '\n') := by
  by_cases hb : c = '\\'
  · subst hb
    cases rest with
    | nil => exact .inl ⟨rfl, rfl⟩
    | cons d rest =>
      by_cases hz : d = 'z'
      · simp [bodyUnit?, hz] at h
      · simp [bodyUnit?] at h
  · refine .inr ⟨hb, ?_⟩
    by_contra hc
    simp [bodyUnit?, hb, hc] at h

theorem closingQuote_of_le (h : (bytesOf source).length ≤ pos) (quote : UInt8) :
    closingQuote source quote pos = none := by
  rw [closingQuote]
  split
  · rfl
  · next hget => simp [List.getElem?_eq_none h] at hget

/-- Where there is no unit the search ends. -/
theorem closingQuote_of_bodyUnit?_eq_none {quote : Char} (hq : IsQuote quote)
    (hu : bodyUnit? quote rest = none) (h : IsCut source pos before rest) :
    closingQuote source quote.toUInt8 pos = if rest.head? = some quote then some pos else none := by
  cases rest with
  | nil =>
    rw [closingQuote_of_le (by rw [h.length_bytesOf]; rfl)]
    rfl
  | cons c after =>
    rcases cases_of_bodyUnit?_eq_none hu with ⟨rfl, rfl⟩ | ⟨hb, hc⟩
    · have hend : (bytesOf source).length ≤ pos + 2 := by
        rw [h.length_bytesOf]
        exact Nat.add_le_add_left (by decide) pos
      have hne : quote ≠ '\\' := hq.ne (by decide) (by decide)
      rw [closingQuote_of_backslash hq h, if_neg (by simp), closingQuote_of_le hend,
        List.head?_cons, if_neg (fun he => hne (Option.some.inj he).symm)]
    · obtain ⟨b, bs, hbytes, he⟩ := exists_encodes c
      have hget : (bytesOf source)[pos]? = some b := by
        rw [h.getElem?, utf8_cons, hbytes]
        rfl
      rw [closingQuote]
      split
      · next hget' => simp [hget] at hget'
      · next b' hget' =>
        obtain rfl := Option.some.inj (hget.symm.trans hget')
        simp only [he.eq_iff hq.toNat_lt, he.eq_iff (show '\n'.toNat < 128 by decide),
          List.head?_cons, Option.some.injEq]
        split
        · rfl
        · next hne => rw [if_pos (hc.resolve_left hne)]

theorem closingQuote_eq {quote : Char} (hq : IsQuote quote) (h : IsCut source pos before rest) :
    closingQuote source quote.toUInt8 pos =
      (takeBody quote rest).map fun r => pos + utf8Len r.1 := by
  fun_induction bodyUnits quote rest generalizing pos before with
  | case1 cs hnone =>
    rw [closingQuote_of_bodyUnit?_eq_none hq hnone h, takeBody, bodyUnits_of_eq_none hnone]
    cases cs with
    | nil => rfl
    | cons c after =>
      simp only [List.head?_cons, Option.some.injEq]
      split <;> rfl
  | case2 cs unit rest hu _ body after hb ih =>
    have hcut : IsCut source pos before (unit ++ rest) := by rwa [append_of_bodyUnit? hu]
    rw [closingQuote_of_bodyUnit? hq hu h, takeBody_of_eq_some hu, ih hcut.advance, Option.map_map]
    refine congrArg (Option.map · _) (funext fun r => ?_)
    simp [Nat.add_assoc]

-- the place behind the backslash and one byte is inside of the character
example : closingQuote "'\\é'" '\x27'.toUInt8 1 = some 4 := by decide +kernel

/-! ## Calls -/

theorem callAt_agrees (h : IsCut source pos before rest) :
    Agrees source (callAt source pos)
      ((argument? rest).map fun arg => (arg.name, arg.rest)) := by
  have hstart := h.literalStart
  simp only [callAt, argument?, hstart.getElem?]
  generalize rest.drop (openingLength rest) = tail at hstart
  cases tail with
  | nil => exact .nothing
  | cons c tail =>
    obtain ⟨b, bs, hbytes, he⟩ := exists_encodes c
    simp only [utf8_cons, hbytes, List.cons_append, List.head?_cons,
      he.eq_iff (show '"'.toNat < 128 by decide), he.eq_iff (show '\x27'.toNat < 128 by decide)]
    by_cases hquote : c = '"' ∨ c = '\x27'
    · have hq : IsQuote c := hquote
      obtain rfl : b = c.toUInt8 := (he.eq_iff hq.toNat_lt).2 rfl
      have hinside := hstart.next_of_ascii hq.toNat_lt
      rw [if_pos hquote, if_pos hquote, closingQuote_eq hq hinside]
      cases hbody : takeBody c tail with
      | none => exact .nothing
      | some r =>
        obtain ⟨body, after⟩ := r
        rw [← append_of_takeBody hbody] at hinside
        have hend := hinside.advance.next_of_ascii hq.toNat_lt
        simp only [Option.map_some, hinside.slice, unescape_eq, String.toList_ofList, bind,
          Except.bind, Option.bind_some]
        cases decode body with
        | none => exact .nothing
        | some name =>
          simp only [Option.bind_some]
          by_cases hname : name = ""
          · rw [if_pos hname, if_pos hname]
            exact .nothing
          · rw [if_neg hname, if_neg hname]
            exact .read hend
    · rw [if_neg hquote, if_neg hquote]
      exact .nothing

end LuaBundle.Lua
