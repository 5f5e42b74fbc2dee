import LuaBundle.Proofs.Lua.Scanner

/-!
# Reading what was quoted

`quote` writes a text one character after the other, and the readers take it back the same way:
what is written for a character is read as that character, whatever follows it.  An escaped control
character has three digits for this reason; with fewer, a digit that follows would be read as part
of it.

* `decode_flatMap_quoteChar` — what stands between the quotes denotes the text;
* `isBody_flatMap_quoteChar` and `not_isControl_of_mem_quoteChar` — it holds no quote and no
  control character that would end the literal or the line;
* `requireCalls_quote` — a call with the literal as its argument is found, and its name is the text.
-/

set_option autoImplicit false

namespace LuaBundle.Lua

/-! ## Escapes -/

theorem decodeBytes_escape {cs rest : List Char} {bytes : List UInt8}
    (h : readEscape cs = some (bytes, rest)) :
    decodeBytes ('\\' :: cs) = (decodeBytes rest).map (bytes ++ ·) := by
  rw [decodeBytes]
  split
  · next hnone => simp [h] at hnone
  · next bytes' rest' hsome =>
    rw [h, Option.some.injEq, Prod.mk.injEq] at hsome
    rw [hsome.1, hsome.2]

theorem decodeBytes_char {c : Char} (hc : c ≠ '\\') (cs : List Char) :
    decodeBytes (c :: cs) = (decodeBytes cs).map (String.utf8EncodeChar c ++ ·) := by
  rw [decodeBytes]
  exact fun h => hc h

theorem readEscape_of_simpleEscape? {c d : Char} (h : simpleEscape? c = some d)
    (rest : List Char) : readEscape (c :: rest) = some (String.utf8EncodeChar d, rest) := by
  unfold simpleEscape? at h
  split at h
  case h_12 => simp at h
  all_goals
    obtain rfl := Option.some.inj h
    rfl

theorem readEscape_of_isDigit {c : Char} (hc : c.isDigit) (rest : List Char) :
    readEscape (c :: rest) =
      if decimalValue (((c :: rest).take 3).takeWhile Char.isDigit) ≤ 255 then
        some ([UInt8.ofNat (decimalValue (((c :: rest).take 3).takeWhile Char.isDigit))],
          (c :: rest).drop (((c :: rest).take 3).takeWhile Char.isDigit).length)
      else none := by
  unfold readEscape
  split <;> simp_all

/-- Three digits are read as the number that they were written for. -/
theorem readEscape_threeDigits {n : Nat} (hn : n ≤ 255) (rest : List Char) :
    readEscape (threeDigits n ++ rest) = some ([UInt8.ofNat n], rest) := by
  have hdigit (k : Nat) : (Nat.digitChar (k % 10)).isDigit := by
    rw [Nat.isDigit_digitChar]
    exact decide_eq_true (Nat.mod_lt _ (by decide))
  have hvalue (k : Nat) : (Nat.digitChar (k % 10)).toNat - '0'.toNat = k % 10 := by
    rw [Nat.toNat_digitChar_of_lt_ten (Nat.mod_lt _ (by decide))]
    exact Nat.add_sub_cancel_left 48 (k % 10)
  have hall : ((threeDigits n ++ rest).take 3).takeWhile Char.isDigit = threeDigits n := by
    simp [threeDigits, hdigit]
  have hn' : decimalValue (threeDigits n) = n := by
    simp only [decimalValue, threeDigits, List.foldl_cons, List.foldl_nil, hvalue]
    omega
  have hread := readEscape_of_isDigit (hdigit (n / 100))
    (Nat.digitChar (n / 10 % 10) :: Nat.digitChar (n % 10) :: rest)
  rw [show Nat.digitChar (n / 100 % 10) :: Nat.digitChar (n / 10 % 10) :: Nat.digitChar (n % 10)
    :: rest = threeDigits n ++ rest from rfl, hall, hn', if_pos hn, List.drop_left] at hread
  exact hread

/-! ## What is written for a character -/

/-- A character is written as itself, as a letter behind a backslash, or with three digits. -/
theorem quoteChar_cases (c : Char) :
    (quoteChar c = [c] ∧ c ≠ '\\' ∧ c ≠ '"' ∧ ¬ isControl c) ∨
      (∃ d, quoteChar c = ['\\', d] ∧ simpleEscape? d = some c ∧ ¬ isControl d) ∨
      (quoteChar c = '\\' :: threeDigits c.toNat ∧ isControl c) := by
  unfold quoteChar
  split
  · next hc => exact .inr (.inl ⟨_, rfl, by rw [hc]; rfl, by decide⟩)
  next hbackslash =>
  split
  · next hc => exact .inr (.inl ⟨_, rfl, by rw [hc]; rfl, by decide⟩)
  next hquote =>
  split
  · next hc => exact .inr (.inl ⟨_, rfl, by rw [hc]; rfl, by decide⟩)
  split
  · next hc => exact .inr (.inl ⟨_, rfl, by rw [hc]; rfl, by decide⟩)
  split
  · next hc => exact .inr (.inr ⟨rfl, hc⟩)
  · next hc => exact .inl ⟨rfl, hbackslash, hquote, hc⟩

theorem isControl_iff {c : Char} : isControl c ↔ c.toNat < 32 ∨ c.toNat = 127 := by
  simp only [isControl, Bool.or_eq_true, decide_eq_true_eq, beq_iff_eq]

/-- The control characters are single bytes. -/
theorem utf8EncodeChar_of_isControl {c : Char} (hc : isControl c) :
    c.toNat ≤ 255 ∧ String.utf8EncodeChar c = [UInt8.ofNat c.toNat] := by
  have hlt : c.toNat ≤ 127 := by
    have := isControl_iff.1 hc
    omega
  exact ⟨Nat.le_trans hlt (by decide), by simp [String.utf8EncodeChar, Nat.not_lt.2 hlt]⟩

/-- **A character is read as it was written**, whatever follows it. -/
theorem decodeBytes_quoteChar_append (c : Char) (cs : List Char) :
    decodeBytes (quoteChar c ++ cs) = (decodeBytes cs).map (String.utf8EncodeChar c ++ ·) := by
  rcases quoteChar_cases c with ⟨h, hc, _⟩ | ⟨d, h, hd, _⟩ | ⟨h, hc⟩
  · rw [h]
    exact decodeBytes_char hc cs
  · rw [h]
    exact decodeBytes_escape (readEscape_of_simpleEscape? hd cs)
  · obtain ⟨hle, hbytes⟩ := utf8EncodeChar_of_isControl hc
    rw [h, hbytes]
    exact decodeBytes_escape (readEscape_threeDigits hle cs)

theorem decodeBytes_flatMap_quoteChar (cs : List Char) :
    decodeBytes (cs.flatMap quoteChar) = some (cs.flatMap String.utf8EncodeChar) := by
  induction cs with
  | nil => rw [List.flatMap_nil, decodeBytes, List.flatMap_nil]
  | cons c cs ih =>
    rw [List.flatMap_cons, decodeBytes_quoteChar_append, ih, Option.map_some, List.flatMap_cons]

/-- **What stands between the quotes denotes the text.** -/
theorem decode_flatMap_quoteChar (name : String) :
    decode (name.toList.flatMap quoteChar) = some name := by
  have hbytes : (⟨(name.toList.flatMap String.utf8EncodeChar).toArray⟩ : ByteArray)
      = name.toByteArray := by
    conv => rhs; rw [← String.ofList_toList (s := name), String.toByteArray_ofList]
    exact ByteArray.ext List.data_toByteArray.symm
  have hvalid : name.toByteArray.IsValidUTF8 := name.isValidUTF8
  simp only [decode, decodeBytes_flatMap_quoteChar, Option.bind_eq_bind, Option.bind_some, hbytes,
    String.fromUTF8?, hvalid, dif_pos, String.fromUTF8]

/-! ## The literal -/

theorem mem_threeDigits {n : Nat} {d : Char} (h : d ∈ threeDigits n) :
    ∃ k < 10, d = Nat.digitChar k := by
  simp only [threeDigits, List.mem_cons, List.not_mem_nil, or_false] at h
  rcases h with rfl | rfl | rfl
  all_goals exact ⟨_, Nat.mod_lt _ (by decide), rfl⟩

theorem toNat_of_mem_threeDigits {n : Nat} {d : Char} (h : d ∈ threeDigits n) :
    48 ≤ d.toNat ∧ d.toNat ≤ 57 := by
  obtain ⟨k, hk, rfl⟩ := mem_threeDigits h
  rw [Nat.toNat_digitChar_of_lt_ten hk]
  omega

theorem not_isControl_of_mem_quoteChar {c d : Char} (h : d ∈ quoteChar c) : ¬ isControl d := by
  rcases quoteChar_cases c with ⟨hc, _, _, hcontrol⟩ | ⟨e, hc, _, hcontrol⟩ | ⟨hc, _⟩
  · rw [hc, List.mem_singleton] at h
    rwa [h]
  · rw [hc, List.mem_cons, List.mem_singleton] at h
    rcases h with rfl | rfl
    · decide
    · exact hcontrol
  · rw [hc, List.mem_cons] at h
    rcases h with rfl | h
    · decide
    · have := toNat_of_mem_threeDigits h
      rw [isControl_iff]
      omega

/-- A character is written without the quote and without a line break that would end the body. -/
theorem IsBody.quoteChar_append {body : List Char} (h : IsBody '"' body) (c : Char) :
    IsBody '"' (quoteChar c ++ body) := by
  have hplain {d : Char} (hd : ¬ isControl d) : d ≠ '\n' := fun he => hd (he ▸ by decide)
  rcases quoteChar_cases c with ⟨hc, hbackslash, hquote, hcontrol⟩ | ⟨d, hc, hd, _⟩ | ⟨hc, _⟩
  · rw [hc]
    exact .char hquote (hplain hcontrol) hbackslash h
  · rw [hc]
    exact .escape (fun hz => by simp [hz, simpleEscape?] at hd) h
  · -- the first digit is escaped, the others stand for themselves
    have hdigit {d : Char} (hd : d ∈ threeDigits c.toNat) :
        d ≠ '"' ∧ d ≠ '\n' ∧ d ≠ '\\' ∧ d ≠ 'z' := by
      have := toNat_of_mem_threeDigits hd
      refine ⟨?_, ?_, ?_, ?_⟩ <;> (rintro rfl; revert this; decide)
    rw [hc]
    refine .escape (hdigit (by simp [threeDigits])).2.2.2 ?_
    have hchar {d : Char} (hd : d ∈ threeDigits c.toNat) {rest : List Char}
        (hrest : IsBody '"' rest) : IsBody '"' (d :: rest) :=
      .char (hdigit hd).1 (hdigit hd).2.1 (hdigit hd).2.2.1 hrest
    exact hchar (by simp [threeDigits]) (hchar (by simp [threeDigits]) h)

/-- What stands between the quotes of a literal is a body. -/
theorem isBody_flatMap_quoteChar (cs : List Char) : IsBody '"' (cs.flatMap quoteChar) := by
  induction cs with
  | nil => exact .nil
  | cons c cs ih => exact ih.quoteChar_append c

/-! ## Calls -/

/-- A literal in parentheses is the argument of a call. -/
theorem isArgument_quote {name : String} (hname : name ≠ "") :
    IsArgument name ('(' :: (quote name).toList) := by
  have hopening : IsOpening ['('] := @IsOpening.paren [] [] (by simp) (by simp)
  refine ⟨['('], '"', name.toList.flatMap quoteChar, hopening, .inl rfl, isBody_flatMap_quoteChar _,
    decode_flatMap_quoteChar name, hname, ?_⟩
  rw [quote, String.toList_ofList]
  rfl

namespace Scanner

variable {s : Scanner}

/-- A step passes a call that stands here. -/
theorem step?_of_call {after : List Char} {arg : Argument} (hc : ¬ s.inComment)
    (hk : s.keyword? = some after) (ha : argument? after = some arg) :
    s.step? = some ({ s with
        before := arg.span.getLast?
        rest := arg.rest
        line := s.line + arg.span.count '\n' }, some ⟨arg.name, s.line⟩) := by
  have hrest : s.rest = 'r' :: (['e', 'q', 'u', 'i', 'r', 'e'] ++ after) :=
    (keyword_append_of_keyword? hk).symm
  unfold step?
  rw [hrest]
  simp [hc, hk, ha]

/-- There is no call in a text that is shorter than the keyword. -/
theorem calls_eq_nil_of_length (h : s.rest.length < keyword.length) : s.calls = [] := by
  induction hn : s.rest.length using Nat.strongRecOn generalizing s with
  | _ n ih =>
    cases hs : s.step? with
    | none => exact calls_of_step?_eq_none hs
    | some next =>
      obtain ⟨t, call?⟩ := next
      have hlt := length_of_step? hs
      have hcalls : t.calls = [] := ih _ (hn ▸ hlt) (Nat.lt_trans hlt h) rfl
      rw [calls_of_step? hs, hcalls, List.append_nil, Option.toList_eq_nil_iff]
      cases step_of_step? hs with
      | call _ hk _ =>
        have hrest := congrArg List.length (keyword_append_of_keyword? hk)
        rw [List.length_append] at hrest
        omega
      | newline | comment | hyphens | char | keyword => rfl

end Scanner

/-- **A call with a quoted name is found.** -/
theorem requireCalls_quote {name : String} (hname : name ≠ "") :
    requireCalls ("require(" ++ quote name ++ ")") = [⟨name, 1⟩] := by
  have htext : ("require(" ++ quote name ++ ")").toList
      = keyword ++ ('(' :: (quote name).toList ++ [')']) := by
    rw [String.toList_append, String.toList_append]
    rfl
  have hkeyword : (Scanner.ofString ("require(" ++ quote name ++ ")")).keyword?
      = some ('(' :: (quote name).toList ++ [')']) := by
    rw [Scanner.keyword?_eq_some_iff, Scanner.ofString, htext]
    refine ⟨rfl, by simp, fun c hc => ?_⟩
    obtain rfl := Option.some.inj hc
    decide
  have hargument : argument? ('(' :: (quote name).toList ++ [')'])
      = some ⟨name, '(' :: (quote name).toList, [')']⟩ :=
    argument?_eq_some_iff.2 ⟨isArgument_quote hname, rfl⟩
  have hcall := Scanner.step?_of_call (by simp [Scanner.ofString]) hkeyword hargument
  rw [requireCalls, Scanner.calls_of_step? hcall,
    Scanner.calls_eq_nil_of_length (by simp [keyword])]
  rfl

end LuaBundle.Lua
