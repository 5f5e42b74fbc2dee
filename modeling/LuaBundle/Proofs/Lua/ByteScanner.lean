import LuaBundle.Proofs.Lua.ByteCalls

/-!
# Scanning by places

The calls of a text can be found by places: a scanner keeps the place where it stands, the line and
whether it stands in a comment, and it moves on byte by byte.  So it also stops inside of
characters, and it looks at bytes and parts of the text with accesses that can fail.

* `ByteScanner` is such a scanner, `ByteScanner.advance` moves it on once, `ByteScanner.next` moves
  it behind the next call, and `ByteScanner.nexts` asks for several calls, one after the other;
* `Tracks` — the scanner stands some bytes before the place where a `Scanner` stands, all of which
  belong to one character;
* `Tracks.inside` and `Tracks.step` — the scanner passes one of these bytes, or makes the step that
  the other makes;
* `ByteScanner.scan_in_bounds` — from every place that is reached the scanner moves on, no access
  fails, and what it finds are the calls of the text.
-/

set_option autoImplicit false

namespace LuaBundle.Lua

open String (utf8EncodeChar utf8Len)

/-! ## The scanner -/

/-- Whether the byte before a place is of a name. -/
def joinedAt (source : String) (pos : Nat) : Except Fault Bool :=
  if pos = 0 then .ok false else isByte isNameChar <$> byteAt source (pos - 1)

/-- Whether the keyword stands at a place as a whole word. -/
def keywordAt (source : String) (pos : Nat) : Except Fault Bool := do
  if (utf8 keyword).isPrefixOf (← bytesFrom source pos) then
    let joined ← joinedAt source pos
    return !joined && !(bytesOf source)[pos + keyword.length]?.any (isByte isNameChar)
  else
    return false

/-- A place in a text, the line of it, and whether it lies in a comment. -/
structure ByteScanner where
  /-- The number of bytes before the place. -/
  pos : Nat := 0
  line : Nat := 1
  inComment : Bool := false
  deriving DecidableEq, Repr

namespace ByteScanner

/-- The scanner passes a keyword, and the argument behind it if there is one. -/
def passKeyword (source : String) (s : ByteScanner) :
    Except Fault (ByteScanner × Option RequireCall) := do
  match ← callAt source (s.pos + keyword.length) with
  | none => return ({ s with pos := s.pos + keyword.length }, none)
  | some (name, stop) =>
    let passed ← bytesBetween source s.pos stop
    return ({ s with pos := stop, line := s.line + passed.count '\n'.toUInt8 },
      some ⟨name, s.line⟩)

/-- The scanner moves on once, with the call that it passes, if it passes one. -/
def advance (source : String) (s : ByteScanner) :
    Except Fault (ByteScanner × Option RequireCall) := do
  let b ← byteAt source s.pos
  if b = '\n'.toUInt8 then
    return ({ pos := s.pos + 1, line := s.line + 1 }, none)
  else if s.inComment then
    return ({ s with pos := s.pos + 1 }, none)
  else if b = '-'.toUInt8 ∧ (bytesOf source)[s.pos + 1]? = some '-'.toUInt8 then
    return ({ s with pos := s.pos + 2, inComment := true }, none)
  else if b = 'r'.toUInt8 then
    if ← keywordAt source s.pos then
      passKeyword source s
    else
      return ({ s with pos := s.pos + 1 }, none)
  else
    return ({ s with pos := s.pos + 1 }, none)

/-! ## Every turn goes on -/

theorem le_literalStart (source : String) (pos : Nat) : pos ≤ literalStart source pos := by
  have h := le_skipBlanks source pos
  simp only [literalStart]
  split
  · exact Nat.le_trans h (Nat.le_of_succ_le (le_skipBlanks source _))
  · exact h

theorem le_of_closingQuote {source : String} {quote : UInt8} {pos stop : Nat}
    (h : closingQuote source quote pos = some stop) : pos ≤ stop := by
  fun_induction closingQuote source quote pos with
  | case1 => simp at h
  | case2 => exact Nat.le_of_eq (Option.some.inj h)
  | case3 => simp at h
  | case4 pos _ hle _ _ _ _ ih => exact Nat.le_trans (by omega) (ih h)
  | case5 pos _ _ _ _ _ ih => exact Nat.le_trans (by omega) (ih h)
  | case6 pos _ _ _ _ _ _ ih => exact Nat.le_of_succ_le (ih h)

theorem lt_of_callAt {source name : String} {pos stop : Nat}
    (h : callAt source pos = .ok (some (name, stop))) : pos < stop := by
  have hstart := le_literalStart source pos
  simp only [callAt, bind, Except.bind, pure, Except.pure] at h
  split at h
  · simp at h
  split at h
  · split at h
    · simp at h
    · next close hclose =>
      have hle := le_of_closingQuote hclose
      split at h
      · simp at h
      split at h
      · simp at h
      · simp only [Except.ok.injEq, Option.bind_eq_some_iff, Option.ite_none_left_eq_some,
          Option.some.injEq, Prod.mk.injEq] at h
        obtain ⟨_, _, _, _, rfl⟩ := h
        omega
  · simp at h

theorem lt_of_ok {pos : Nat} {s t : ByteScanner} {c d : Option RequireCall} (hlt : pos < s.pos)
    (h : (.ok (s, c) : Except Fault (ByteScanner × Option RequireCall)) = .ok (t, d)) :
    pos < t.pos := by
  obtain ⟨rfl, -⟩ := Prod.mk.inj (Except.ok.inj h)
  exact hlt

theorem lt_of_passKeyword {source : String} {s t : ByteScanner} {call? : Option RequireCall}
    (h : passKeyword source s = .ok (t, call?)) : s.pos < t.pos := by
  have hkeyword : 0 < keyword.length := by decide
  simp only [passKeyword, bind, Except.bind, pure, Except.pure] at h
  split at h
  · simp at h
  split at h
  · exact lt_of_ok (Nat.lt_add_of_pos_right hkeyword) h
  · next hcall =>
    have hstop := lt_of_callAt hcall
    split at h
    · simp at h
    · exact lt_of_ok (Nat.lt_trans (Nat.lt_add_of_pos_right hkeyword) hstop) h

/-- The scanner does not stay where it is. -/
theorem lt_of_advance {source : String} {s t : ByteScanner} {call? : Option RequireCall}
    (h : advance source s = .ok (t, call?)) : s.pos < t.pos := by
  simp only [advance, bind, Except.bind, pure, Except.pure] at h
  split at h
  · simp at h
  split at h
  · exact lt_of_ok (Nat.lt_succ_self _) h
  split at h
  · exact lt_of_ok (Nat.lt_succ_self _) h
  split at h
  · exact lt_of_ok (Nat.lt_add_of_pos_right (by decide)) h
  split at h
  · split at h
    · simp at h
    split at h
    · exact lt_of_passKeyword h
    · exact lt_of_ok (Nat.lt_succ_self _) h
  · exact lt_of_ok (Nat.lt_succ_self _) h

/-- The next call and the place behind it, or the end of the text. -/
def next (source : String) (s : ByteScanner) : Except Fault (Option RequireCall × ByteScanner) :=
  if s.pos < (bytesOf source).length then
    match h : advance source s with
    | .error fault => .error fault
    | .ok (t, some call) => .ok (some call, t)
    | .ok (t, none) =>
      have := lt_of_advance h
      next source t
  else
    .ok (none, s)
termination_by (bytesOf source).length - s.pos

/-- What so many calls of `next` answer, one after the other, and where the last one ends. -/
def nexts (source : String) :
    Nat → ByteScanner → Except Fault (List (Option RequireCall) × ByteScanner)
  | 0, s => return ([], s)
  | n + 1, s => do
    let (answer, t) ← next source s
    let (answers, u) ← nexts source n t
    return (answer :: answers, u)

end ByteScanner

variable {source : String} {pos : Nat} {before rest : List Char}

/-! ## The keyword -/

theorem ascii_isNameChar : Ascii isNameChar := by
  intro c hc
  have hkinds : (c.isUpper || c.isLower || c.isDigit || c == '_') = true := hc
  simp only [Bool.or_eq_true, beq_iff_eq] at hkinds
  rcases hkinds with ((hupper | hlower) | hdigit) | rfl
  · exact Nat.lt_of_le_of_lt (UInt32.le_iff_toNat_le.1 (of_decide_eq_true hupper).2) (by decide)
  · have hle := of_decide_eq_true ((Bool.and_eq_true _ _).mp hlower).2
    exact Nat.lt_of_le_of_lt (UInt32.le_iff_toNat_le.1 hle) (by decide)
  · exact ascii_isDigit c hdigit
  · decide

theorem toNat_lt_of_mem_keyword : ∀ c ∈ keyword, c.toNat < 128 := by
  have hall : keyword.all fun c => c.toNat < 128 := by decide
  simpa using List.all_eq_true.1 hall

theorem IsCut.joinedAt (h : IsCut source pos before rest) :
    joinedAt source pos = .ok (before.getLast?.any isNameChar) := by
  rw [Lua.joinedAt]
  split
  · next hpos =>
    obtain rfl : before = [] := String.utf8Len_eq_zero.1 (h.pos_eq.symm.trans hpos)
    rfl
  · next hpos =>
    have hlt : pos - 1 < (bytesOf source).length := by
      rw [h.length_bytesOf]
      omega
    have hlast : (utf8 before).getLast? = some (bytesOf source)[pos - 1] := by
      rw [← h.take_bytesOf, List.getLast?_take, if_neg hpos, List.getElem?_eq_getElem hlt]
      rfl
    rw [byteAt_of_lt hlt, ← any_getLast?_utf8 ascii_isNameChar, hlast]
    rfl

theorem bytesBetween_of_keyword {span : List Char}
    (h : IsCut source pos before (keyword ++ (span ++ rest))) :
    bytesBetween source pos (pos + keyword.length + utf8Len span) = .ok (utf8 (keyword ++ span)) := by
  have hlen : utf8Len (keyword ++ span) = keyword.length + utf8Len span := by
    rw [String.utf8Len_append, utf8Len_of_ascii toNat_lt_of_mem_keyword]
  rw [Nat.add_assoc, ← hlen]
  exact IsCut.bytesBetween (by rwa [List.append_assoc])

/-- The lines that a call takes up are those of its argument. -/
theorem count_utf8_of_keyword (span : List Char) :
    (utf8 (keyword ++ span)).count '\n'.toUInt8 = span.count '\n' := by
  have hzero : keyword.count '\n' = 0 := by decide
  rw [count_utf8 (by decide), List.count_append, hzero, Nat.zero_add]

theorem keywordAt_eq {t : Scanner} (h : IsCut source pos before t.rest)
    (hbefore : t.before = before.getLast?) :
    keywordAt source pos = .ok t.keyword?.isSome := by
  have hprefix : (utf8 keyword).isPrefixOf (utf8 t.rest) = keyword.isPrefixOf t.rest := by
    rw [Bool.eq_iff_iff, List.isPrefixOf_iff_prefix, List.isPrefixOf_iff_prefix,
      utf8_prefix_iff toNat_lt_of_mem_keyword]
  simp only [keywordAt, h.bytesFrom, h.joinedAt, bind, Except.bind, hprefix, Scanner.keyword?,
    hbefore]
  by_cases hkeyword : keyword.isPrefixOf t.rest
  · have happ := List.prefix_iff_eq_append.1 (List.isPrefixOf_iff_prefix.1 hkeyword)
    have hcut : IsCut source pos before (keyword ++ t.rest.drop keyword.length) := by rwa [happ]
    rw [(hcut.advance_of_ascii toNat_lt_of_mem_keyword).getElem?, any_head?_utf8 ascii_isNameChar]
    simp only [hkeyword, if_true, Bool.true_and]
    generalize (!before.getLast?.any isNameChar &&
      !(t.rest.drop keyword.length).head?.any isNameChar) = whole
    cases whole <;> rfl
  · simp only [hkeyword, Bool.false_eq_true, if_false, Bool.false_and]
    rfl

/-! ## The scanner of characters, followed by places -/

/-- A scanner stands a number of bytes before the place where another stands, and these bytes belong
to one character.  Otherwise the two are alike. -/
structure Tracks (source : String) (s : ByteScanner) (t : Scanner) (k : Nat) : Prop where
  cut : ∃ before, IsCut source (s.pos + k) before t.rest ∧ t.before = before.getLast?
  wide : ∃ bs tail, (bytesOf source).drop s.pos = bs ++ tail ∧ bs.length = k ∧
    ∀ b ∈ bs, 128 ≤ b.toNat
  line : s.line = t.line
  inComment : s.inComment = t.inComment

namespace Tracks

variable {s : ByteScanner} {t t' : Scanner} {k : Nat} {call? : Option RequireCall}

theorem start (source : String) : Tracks source {} (.ofString source) 0 where
  cut := ⟨[], IsCut.start source, rfl⟩
  wide := ⟨[], _, rfl, rfl, by simp⟩
  line := rfl
  inComment := rfl

theorem le (h : Tracks source s t k) : s.pos ≤ (bytesOf source).length := by
  obtain ⟨before, hcut, -⟩ := h.cut
  have := hcut.length_bytesOf
  omega

/-- Behind the text there is nothing left of either. -/
theorem pos_eq_iff (h : Tracks source s t k) :
    s.pos = (bytesOf source).length ↔ t.rest = [] ∧ k = 0 := by
  obtain ⟨before, hcut, -⟩ := h.cut
  rw [hcut.length_bytesOf, ← String.utf8Len_eq_zero]
  omega

/-- A scanner inside of a character passes one byte of it. -/
theorem inside (h : Tracks source s t (k + 1)) :
    s.advance source = .ok ({ s with pos := s.pos + 1 }, none) ∧
      Tracks source { s with pos := s.pos + 1 } t k := by
  obtain ⟨bs, tail, hdrop, hlen, hwide⟩ := h.wide
  obtain ⟨b, bs, rfl⟩ := List.exists_cons_of_length_eq_add_one hlen
  obtain ⟨hb, hbs⟩ := List.forall_mem_cons.1 hwide
  obtain ⟨hget, hrest⟩ := getElem?_and_drop_of_drop hdrop
  have hbyte : byteAt source s.pos = .ok b := by rw [byteAt, hget]
  constructor
  · simp only [ByteScanner.advance, hbyte, bind, Except.bind,
      ne_of_wide hb (show '\n'.toNat < 128 by decide),
      ne_of_wide hb (show '-'.toNat < 128 by decide),
      ne_of_wide hb (show 'r'.toNat < 128 by decide), if_false, false_and, ite_self]
    rfl
  · obtain ⟨before, hcut, hbefore⟩ := h.cut
    refine ⟨⟨before, ?_, hbefore⟩, ⟨bs, tail, hrest, by simpa using hlen, hbs⟩, h.line, h.inComment⟩
    rwa [Nat.add_assoc, Nat.add_comm 1]

/-- What the scanner does between characters. -/
theorem advance_eq (h : Tracks source s t 0) {c : Char} (hrest : t.rest = c :: rest) :
    s.advance source =
      if c = '\n' then .ok ({ pos := s.pos + 1, line := s.line + 1 }, none)
      else if t.inComment then .ok ({ s with pos := s.pos + 1 }, none)
      else if c = '-' ∧ rest.head? = some '-' then
        .ok ({ s with pos := s.pos + 2, inComment := true }, none)
      else if t.keyword?.isSome then s.passKeyword source
      else .ok ({ s with pos := s.pos + 1 }, none) := by
  obtain ⟨before, hcut, hbefore⟩ := h.cut
  have hc : IsCut source s.pos before (c :: rest) := hrest ▸ hcut
  obtain ⟨b, bs, hbytes, he⟩ := exists_encodes c
  have hbyte : byteAt source s.pos = .ok b := by
    rw [byteAt, hc.getElem?, utf8_cons, hbytes]
    rfl
  have hhyphens : c = '-' ∧ (bytesOf source)[s.pos + 1]? = some '-'.toUInt8 ↔
      c = '-' ∧ rest.head? = some '-' := by
    refine and_congr_right fun hhyphen => ?_
    subst hhyphen
    rw [(hc.next_of_ascii (by decide)).getElem?, head?_utf8_eq_some_iff (by decide)]
  have hkeyword : keywordAt source s.pos = .ok t.keyword?.isSome := keywordAt_eq hcut hbefore
  have hstart : t.keyword?.isSome → c = 'r' := by
    intro hsome
    obtain ⟨after, hafter⟩ := Option.isSome_iff_exists.1 hsome
    have happ := Scanner.keyword_append_of_keyword? hafter
    rw [hrest] at happ
    exact (List.cons.inj happ).1.symm
  simp only [ByteScanner.advance, hbyte, bind, Except.bind, pure, Except.pure,
    he.eq_iff (show '\n'.toNat < 128 by decide), he.eq_iff (show '-'.toNat < 128 by decide),
    he.eq_iff (show 'r'.toNat < 128 by decide), hhyphens, h.inComment, hkeyword]
  split
  · rfl
  split
  · rfl
  split
  · rfl
  by_cases hsome : t.keyword?.isSome
  · rw [if_pos (hstart hsome), if_pos hsome]
  · rw [if_neg hsome, ite_self]

theorem advance_of_keyword? (h : Tracks source s t 0) {after : List Char} (hc : ¬ t.inComment)
    (hk : t.keyword? = some after) : s.advance source = s.passKeyword source := by
  have hrest : t.rest = 'r' :: (keyword.tail ++ after) :=
    (Scanner.keyword_append_of_keyword? hk).symm
  rw [h.advance_eq hrest, if_neg (by decide), if_neg hc, if_neg (by simp), if_pos (by simp [hk])]

/-- The scanner passes some characters as a whole. -/
theorem pass (h : Tracks source s t 0) {s' : ByteScanner} {passed : List Char}
    (hrest : passed ++ t'.rest = t.rest) (hne : passed ≠ [])
    (hlast : t'.before = passed.getLast?) (hpos : s'.pos = s.pos + utf8Len passed)
    (hline : s'.line = t'.line) (hcom : s'.inComment = t'.inComment) : Tracks source s' t' 0 := by
  obtain ⟨before, hcut, -⟩ := h.cut
  have hcut' : IsCut source s.pos before (passed ++ t'.rest) := hrest ▸ hcut
  refine ⟨⟨before ++ passed, ?_, ?_⟩, ⟨[], _, rfl, rfl, by simp⟩, hline, hcom⟩
  · rw [Nat.add_zero, hpos]
    exact hcut'.advance
  · rw [hlast, List.getLast?_append_of_ne_nil _ hne]

/-- The scanner passes the first byte of a character. -/
theorem char (h : Tracks source s t 0) {c : Char} (hrest : t.rest = c :: rest) :
    Tracks source { s with pos := s.pos + 1 } { t with before := some c, rest }
      (c.utf8Size - 1) := by
  obtain ⟨before, hcut, -⟩ := h.cut
  have hc : IsCut source s.pos before (c :: rest) := hrest ▸ hcut
  obtain ⟨b, bs, hbytes, he⟩ := exists_encodes c
  have hdrop := hc.drop_bytesOf
  rw [utf8_cons, hbytes] at hdrop
  have hsize := utf8Size_of_bytes hbytes
  refine ⟨⟨before ++ [c], ?_, by simp⟩,
    ⟨bs, _, (getElem?_and_drop_of_drop hdrop).2, by simp [hsize], he.wide_of_mem⟩, h.line,
    h.inComment⟩
  have hpos : s.pos + 1 + (c.utf8Size - 1) = s.pos + c.utf8Size := by omega
  rw [hpos]
  exact hc.next

theorem passKeyword (h : Tracks source s t 0) {after : List Char} (hk : t.keyword? = some after) :
    s.passKeyword source =
      .ok (match argument? after with
        | none => ({ s with pos := s.pos + keyword.length }, none)
        | some arg =>
          ({ s with
              pos := s.pos + keyword.length + utf8Len arg.span
              line := s.line + arg.span.count '\n' }, some ⟨arg.name, s.line⟩)) := by
  obtain ⟨before, hcut, -⟩ := h.cut
  have hkeyword : IsCut source s.pos before (keyword ++ after) :=
    Scanner.keyword_append_of_keyword? hk ▸ hcut
  have hafter := hkeyword.advance_of_ascii toNat_lt_of_mem_keyword
  have hagrees := callAt_agrees hafter
  generalize hcall : callAt source (s.pos + keyword.length) = result at hagrees
  cases harg : argument? after with
  | none =>
    rw [harg] at hagrees
    cases hagrees
    simp only [ByteScanner.passKeyword, hcall, bind, Except.bind]
    rfl
  | some arg =>
    rw [harg] at hagrees
    cases hagrees with
    | @read _ stop _ _ hend =>
      rw [← span_append_rest harg] at hkeyword hafter
      obtain rfl : stop = s.pos + keyword.length + utf8Len arg.span := by
        have hlen := hend.length_bytesOf.symm.trans hafter.advance.length_bytesOf
        omega
      simp only [ByteScanner.passKeyword, hcall, bytesBetween_of_keyword hkeyword,
        count_utf8_of_keyword, bind, Except.bind]
      rfl

/-- **Between characters the scanner makes the step that the other makes.** -/
theorem step (h : Tracks source s t 0) (hstep : t.Step t' call?) :
    ∃ s' k, s.advance source = .ok (s', call?) ∧ Tracks source s' t' k := by
  have hcom := h.inComment
  cases hstep with
  | newline hr =>
    refine ⟨_, 0, by rw [h.advance_eq hr, if_pos rfl], ?_⟩
    have hpassed : ['\n'] ++ _ = t.rest := hr.symm
    exact h.pass hpassed (by simp) rfl rfl (congrArg (· + 1) h.line) rfl
  | comment hr hn hc =>
    exact ⟨_, _, by rw [h.advance_eq hr, if_neg hn, if_pos hc], h.char hr⟩
  | hyphens hr hc =>
    refine ⟨_, 0, by rw [h.advance_eq hr, if_neg (by decide), if_neg hc, if_pos ⟨rfl, rfl⟩], ?_⟩
    have hpassed : ['-', '-'] ++ _ = t.rest := hr.symm
    exact h.pass hpassed (by simp) rfl rfl h.line rfl
  | char hr hn hc hd hk =>
    exact ⟨_, _, by rw [h.advance_eq hr, if_neg hn, if_neg hc, if_neg hd, if_neg (by simp [hk])],
      h.char hr⟩
  | keyword hc hk ha =>
    have hrest := Scanner.keyword_append_of_keyword? hk
    refine ⟨_, 0, by rw [h.advance_of_keyword? hc hk, h.passKeyword hk, ha], ?_⟩
    refine h.pass hrest (by decide) rfl ?_ h.line hcom
    rw [utf8Len_of_ascii toNat_lt_of_mem_keyword]
  | @call after arg hc hk ha =>
    have hrest := Scanner.keyword_append_of_keyword? hk
    rw [← span_append_rest ha, ← List.append_assoc] at hrest
    refine ⟨_, 0, by rw [h.advance_of_keyword? hc hk, h.passKeyword hk, ha, h.line], ?_⟩
    refine h.pass hrest (by simp [keyword]) ?_ ?_ rfl hcom
    · exact (List.getLast?_append_of_ne_nil _ (argument?_eq_some_iff.1 ha).1.ne_nil).symm
    · rw [String.utf8Len_append, utf8Len_of_ascii toNat_lt_of_mem_keyword, Nat.add_assoc]

/-- Before the end of the text no access fails, and what is found is the next of the calls. -/
theorem advance (h : Tracks source s t k) (hlt : s.pos < (bytesOf source).length) :
    ∃ s' t' k' call?, s.advance source = .ok (s', call?) ∧ Tracks source s' t' k' ∧
      t.calls = call?.toList ++ t'.calls := by
  cases k with
  | succ k =>
    obtain ⟨hadvance, htracks⟩ := h.inside
    exact ⟨_, _, _, _, hadvance, htracks, rfl⟩
  | zero =>
    cases hstep : t.step? with
    | none =>
      have hend := h.pos_eq_iff.2 ⟨Scanner.step?_eq_none_iff.1 hstep, rfl⟩
      exact absurd hlt (Nat.not_lt.2 (Nat.le_of_eq hend.symm))
    | some next =>
      obtain ⟨t', call?⟩ := next
      obtain ⟨s', k', hadvance, htracks⟩ := h.step (Scanner.step_of_step? hstep)
      exact ⟨s', t', k', call?, hadvance, htracks, Scanner.calls_of_step? hstep⟩

end Tracks

/-! ## Runs -/

namespace ByteScanner

variable {s t : ByteScanner}

/-- A scanner is reached from the start of a text. -/
inductive Reached (source : String) : ByteScanner → Prop
  | start : Reached source {}
  | advance {s t : ByteScanner} {call? : Option RequireCall} (h : Reached source s)
      (hlt : s.pos < (bytesOf source).length) (ha : s.advance source = .ok (t, call?)) :
      Reached source t

theorem next_of_eq (h : s.pos = (bytesOf source).length) : s.next source = .ok (none, s) := by
  rw [next, if_neg (by omega)]

theorem next_of_advance {call? : Option RequireCall} (hlt : s.pos < (bytesOf source).length)
    (ha : s.advance source = .ok (t, call?)) :
    s.next source =
      match call? with
      | some call => .ok (some call, t)
      | none => t.next source := by
  rw [next, if_pos hlt]
  split
  · next hfault => simp [ha] at hfault
  · next hcall =>
    obtain ⟨rfl, rfl⟩ := Prod.mk.inj (Except.ok.inj (ha.symm.trans hcall))
    rfl
  · next hnone =>
    obtain ⟨rfl, rfl⟩ := Prod.mk.inj (Except.ok.inj (ha.symm.trans hnone))
    rfl

theorem Reached.next {answer : Option RequireCall} (h : Reached source s)
    (hn : s.next source = .ok (answer, t)) : Reached source t := by
  fun_induction ByteScanner.next source s with
  | case1 => simp at hn
  | case2 s hlt t' call ha =>
    obtain ⟨-, rfl⟩ := Prod.mk.inj (Except.ok.inj hn)
    exact h.advance hlt ha
  | case3 s hlt t' ha _ ih => exact ih (h.advance hlt ha) hn
  | case4 s hlt =>
    obtain ⟨-, rfl⟩ := Prod.mk.inj (Except.ok.inj hn)
    exact h

theorem Reached.nexts {n : Nat} {answers : List (Option RequireCall)} (h : Reached source s)
    (hn : s.nexts source n = .ok (answers, t)) : Reached source t := by
  induction n generalizing s answers with
  | zero =>
    obtain ⟨-, rfl⟩ := Prod.mk.inj (Except.ok.inj hn)
    exact h
  | succ n ih =>
    simp only [ByteScanner.nexts, bind, Except.bind] at hn
    split at hn
    · simp at hn
    next hnext =>
    split at hn
    · simp at hn
    next hnexts =>
    obtain ⟨-, rfl⟩ := Prod.mk.inj (Except.ok.inj hn)
    exact ih (h.next hnext) hnexts

theorem Reached.exists_tracks (h : Reached source s) : ∃ t k, Tracks source s t k := by
  induction h with
  | start => exact ⟨_, _, .start source⟩
  | advance _ hlt ha ih =>
    obtain ⟨t, k, htracks⟩ := ih
    obtain ⟨s', t', k', call?, ha', htracks', -⟩ := htracks.advance hlt
    obtain ⟨rfl, -⟩ := Prod.mk.inj (Except.ok.inj (ha.symm.trans ha'))
    exact ⟨t', k', htracks'⟩

end ByteScanner

namespace Tracks

variable {s : ByteScanner} {t : Scanner} {k : Nat}

theorem calls_of_eq (h : Tracks source s t k) (hend : s.pos = (bytesOf source).length) :
    t.calls = [] :=
  Scanner.calls_of_step?_eq_none (Scanner.step?_eq_none_iff.2 (h.pos_eq_iff.1 hend).1)

/-- The next call is found, or the end of the text if there is none. -/
theorem next (h : Tracks source s t k) :
    ∃ s' t' k', s.next source = .ok (t.calls.head?, s') ∧ Tracks source s' t' k' ∧
      t'.calls = t.calls.tail ∧ (t.calls = [] → s'.pos = (bytesOf source).length) := by
  induction hn : (bytesOf source).length - s.pos using Nat.strongRecOn generalizing s t k with
  | _ n ih =>
    rcases Nat.lt_or_eq_of_le h.le with hlt | hend
    · obtain ⟨s', t', k', call?, ha, htracks, hcalls⟩ := h.advance hlt
      rw [ByteScanner.next_of_advance hlt ha, hcalls]
      cases call? with
      | some call => exact ⟨s', t', k', rfl, htracks, rfl, by simp⟩
      | none =>
        have hlt' := ByteScanner.lt_of_advance ha
        exact ih _ (by omega) htracks rfl
    · have hnone := h.calls_of_eq hend
      rw [ByteScanner.next_of_eq hend, hnone]
      exact ⟨s, t, k, rfl, h, hnone, fun _ => hend⟩

/-- So many calls of `next` give so many of the calls, and nothing behind the last one. -/
theorem nexts (h : Tracks source s t k) (n : Nat) :
    ∃ s', s.nexts source n = .ok ((List.range n).map (t.calls[·]?), s') ∧
      (t.calls.length < n → s'.pos = (bytesOf source).length) := by
  induction n generalizing s t k with
  | zero => exact ⟨s, rfl, by simp⟩
  | succ n ih =>
    obtain ⟨s', t', k', hnext, htracks, hcalls, hend⟩ := h.next
    obtain ⟨u, hnexts, hlast⟩ := ih htracks
    refine ⟨u, ?_, ?_⟩
    · simp only [ByteScanner.nexts, hnext, hnexts, hcalls, bind, Except.bind,
        List.range_succ_eq_map, List.map_cons, List.map_map, Function.comp_def,
        List.getElem?_tail, List.head?_eq_getElem?]
      rfl
    · intro hlt
      cases n with
      | zero =>
        obtain ⟨-, rfl⟩ := Prod.mk.inj (Except.ok.inj hnexts)
        exact hend (List.length_eq_zero_iff.1 (Nat.lt_one_iff.1 hlt))
      | succ n =>
        rw [hcalls, List.length_tail] at hlast
        exact hlast (by omega)

end Tracks

/-- **The scanner stays inside of the text.**  At every place that is reached it moves on without an
access that fails, until it is at the end, and there it stays.  However often it is asked for the
next call, it answers with the calls of the text, and then that there are no more. -/
theorem ByteScanner.scan_in_bounds (source : String) :
    (∀ s, Reached source s →
      s.pos ≤ (bytesOf source).length ∧
      (s.pos < (bytesOf source).length →
        ∃ t call?, s.advance source = .ok (t, call?) ∧ s.pos < t.pos) ∧
      (s.pos = (bytesOf source).length → s.next source = .ok (none, s))) ∧
    ∀ n, ∃ s, nexts source n {} = .ok ((List.range n).map ((requireCalls source)[·]?), s) ∧
      Reached source s ∧
      ((requireCalls source).length < n → s.pos = (bytesOf source).length) := by
  constructor
  · intro s hs
    obtain ⟨t, k, htracks⟩ := hs.exists_tracks
    refine ⟨htracks.le, fun hlt => ?_, next_of_eq⟩
    obtain ⟨s', t', k', call?, ha, -, -⟩ := htracks.advance hlt
    exact ⟨s', call?, ha, lt_of_advance ha⟩
  · intro n
    obtain ⟨s, hnexts, hend⟩ := (Tracks.start source).nexts n
    exact ⟨s, hnexts, Reached.start.nexts hnexts, hend⟩

end LuaBundle.Lua
