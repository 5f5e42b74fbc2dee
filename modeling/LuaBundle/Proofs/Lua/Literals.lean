import LuaBundle.Proofs.Lua.Escapes

/-!
# The literals of calls

A call that is reported has a literal, and what stands between its quotes is read unit by unit.  So
its escapes are those that are read: the language's own, and code points with a plus sign.

* `Site.Written` — the text of a call taken apart, `Site.InText.exists_written` that it can be;
* `Denotes.of_not_infix` — where no plus sign stands before a code point the escapes are the
  language's own;
* `escapes_of_decode` — what a body may hold, and so the literal of a call;
* `call_of_signed` — a call whose literal the language does not have.
-/

set_option autoImplicit false

namespace LuaBundle.Lua

/-! ## The text of a call -/

/-- The text of a call, taken apart: the keyword, what stands between it and the literal, the quote
and the body of the literal. -/
structure Site.Written (cs : List Char) (t : Site) (opening : List Char) (quote : Char)
    (body : List Char) : Prop where
  isOpening : IsOpening opening
  isQuote : IsQuote quote
  isBody : IsBody quote body
  name : decode body = some t.name
  text : (cs.take t.stop).drop t.start = keyword ++ (opening ++ quote :: body ++ [quote])

theorem Site.InText.exists_written {cs : List Char} {t : Site} (h : t.InText cs) :
    ∃ opening quote body, t.Written cs opening quote body := by
  obtain ⟨before, span, after, rfl, hstart, hstop, harg, _⟩ := h
  obtain ⟨opening, quote, body, ho, hq, hbody, hname, _, rfl⟩ := harg
  refine ⟨opening, quote, body, ho, hq, hbody, hname, ?_⟩
  generalize opening ++ quote :: body ++ [quote] = span at hstop
  have hlen : t.stop = (before ++ keyword ++ span).length := by
    rw [hstop, hstart, List.length_append, List.length_append]
  rw [hlen, List.take_left, hstart, List.append_assoc, List.drop_left]

/-! ## Signs -/

/-- What stands before the digits of a code point that has a sign. -/
def signMark : List Char := ['\\', 'u', '\x7b', '+']

/-- **Without a sign the escapes are the language's own.** -/
theorem Denotes.of_not_infix {body : List Char} {bytes : List UInt8}
    (h : Denotes IsReadEscape body bytes) (hno : ¬ signMark <:+: body) :
    Denotes IsEscape body bytes := by
  induction h with
  | nil => exact .nil
  | char hc _ ih => exact .char hc (ih fun hin => hno (hin.trans (List.suffix_cons _ _).isInfix))
  | escape he _ ih =>
    have hrest : ¬ signMark <:+: _ := fun hin =>
      hno (hin.trans ((List.suffix_append _ _).trans (List.suffix_cons _ _)).isInfix)
    cases he with
    | proper he => exact .escape he (ih hrest)
    | signed _ _ => exact absurd (List.prefix_append signMark _).isInfix hno

/-- The language has no code points with a sign. -/
theorem not_denotes_signMark (rest : List Char) (bytes : List UInt8) :
    ¬ Denotes IsEscape (signMark ++ rest) bytes := by
  intro h
  generalize hcs : signMark ++ rest = cs at h
  cases h with
  | nil => simp [signMark] at hcs
  | char hc _ => exact hc (List.cons.inj hcs).1.symm
  | @escape text after _ _ he _ =>
    have htext : 'u' :: '\x7b' :: '+' :: rest = text ++ after := (List.cons.inj hcs).2
    cases he with
    | byte hb =>
      obtain rfl := (List.cons.inj htext).1
      simp [byteEscapes] at hb
    | skip _ _ => exact absurd (List.cons.inj htext).1 (by decide)
    | hex _ => exact absurd (List.cons.inj htext).1 (by decide)
    | decimal h hne _ _ _ =>
      obtain ⟨c, digits, rfl⟩ := List.exists_cons_of_ne_nil hne
      obtain rfl := (List.cons.inj htext).1
      exact absurd ((spells_decimal_iff.1 h).1 'u' (by simp)) (by decide)
    | codePoint h hne =>
      obtain ⟨c, digits, rfl⟩ := List.exists_cons_of_ne_nil hne
      obtain rfl := (List.cons.inj (List.cons.inj (List.cons.inj htext).2).2).1
      exact (h.ne_of_mem '+' (by simp)).1 rfl

/-! ## Calls -/

/-- **What a body may hold.**  A text is read off a body exactly if the body is made of characters
and escapes that are read, and the text has their bytes.  Where no sign stands before a code point,
these are the language's own escapes.  Every call that is reported has a body that is read, so none
has one with another escape. -/
theorem escapes_of_decode (body : List Char) :
    (∀ s : String, decode body = some s ↔
      ∃ bytes, Denotes IsReadEscape body bytes ∧ s.toByteArray = ⟨bytes.toArray⟩) ∧
    (¬ signMark <:+: body →
      ∀ bytes, Denotes IsReadEscape body bytes → Denotes IsEscape body bytes) ∧
    ∀ source : String, ∃ sites, Reported source.toList sites ∧
      requireCalls source = sites.map (·.call source.toList) ∧
      ∀ t ∈ sites, (∃ opening quote text, t.Written source.toList opening quote text) ∧
        ((∀ bytes, ¬ Denotes IsReadEscape body bytes) →
          ∀ opening quote, ¬ t.Written source.toList opening quote body) := by
  refine ⟨fun _ => decode_eq_some_iff, fun hno _ hread => hread.of_not_infix hno, fun source => ?_⟩
  obtain ⟨sites, hcalls, hrep⟩ := (Scanned.ofString source).exists_reported
  refine ⟨sites, hrep, hcalls, fun t ht => ⟨?_, fun hnone opening quote hwritten => ?_⟩⟩
  · exact ((hrep.mem_iff t).1 ht).inText.exists_written
  · obtain ⟨bytes, hread, _⟩ := decode_eq_some_iff.1 hwritten.name
    exact hnone bytes hread

/-- **A code point with a sign is read**, although the language has no such escape. -/
theorem call_of_signed :
    requireCalls "require(\"\\u\x7b+41\x7d\")" = [⟨"A", 1⟩] ∧
      decode (signMark ++ ['4', '1', '\x7d']) = some "A" ∧
      ∀ bytes, ¬ Denotes IsEscape (signMark ++ ['4', '1', '\x7d']) bytes := by
  refine ⟨?_, ?_, not_denotes_signMark _⟩
  · decide +kernel
  · decide +kernel

end LuaBundle.Lua
