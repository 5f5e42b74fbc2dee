import LuaBundle.Lua.Require

/-!
# What follows the keyword of a call

The argument of a call is blanks, perhaps one opening parenthesis and more blanks, and a literal.
The readers of `LuaBundle.Lua` take it piece by piece; here the pieces are described without them.

* `IsBody` — what may stand between the quotes: characters that are neither the quote nor a line
  break nor a backslash, `\z` with all blanks after it, and a backslash with any other character.
* `takeBody_eq_some_iff` — a body is read if it is one and the quote follows.
* `IsOpening`, `openingLength_append` — the same for what stands before the quote.
* `IsArgument`, `argument?_eq_some_iff` — the argument is read exactly if the text starts with one.
-/

set_option autoImplicit false

namespace LuaBundle.Lua

/-! ## Bodies -/

/-- What may stand between two quotes. -/
inductive IsBody (quote : Char) : List Char → Prop
  | nil : IsBody quote []
  | char {c : Char} {body : List Char} (hq : c ≠ quote) (hn : c ≠ '\n') (hb : c ≠ '\\')
      (h : IsBody quote body) : IsBody quote (c :: body)
  /-- The blanks after `\z` are taken as far as they go. -/
  | skip {blanks body : List Char} (hb : ∀ c ∈ blanks, isBlank c)
      (hmax : ∀ c ∈ body.head?, ¬ isBlank c) (h : IsBody quote body) :
      IsBody quote ('\\' :: 'z' :: (blanks ++ body))
  | escape {c : Char} {body : List Char} (hz : c ≠ 'z') (h : IsBody quote body) :
      IsBody quote ('\\' :: c :: body)

theorem not_of_mem_head?_dropWhile (p : Char → Bool) (cs : List Char) :
    ∀ c ∈ (cs.dropWhile p).head?, ¬ p c := by
  intro c hc
  have h := List.head?_dropWhile_not p cs
  rw [Option.mem_def.1 hc] at h
  simpa using h

theorem mem_takeWhile_isBlank {cs : List Char} : ∀ c ∈ cs.takeWhile isBlank, isBlank c :=
  List.all_eq_true.1 List.all_takeWhile

/-- Characters of a kind before one of another kind are all that is taken. -/
theorem takeWhile_append_of_head? {p : Char → Bool} {taken rest : List Char}
    (ht : ∀ c ∈ taken, p c) (hr : ∀ c ∈ rest.head?, ¬ p c) :
    (taken ++ rest).takeWhile p = taken := by
  rw [List.takeWhile_append_of_pos ht]
  cases rest with
  | nil => simp
  | cons c rest => rw [List.takeWhile_cons_of_neg (hr c rfl), List.append_nil]

theorem dropWhile_append_of_head? {p : Char → Bool} {taken rest : List Char}
    (ht : ∀ c ∈ taken, p c) (hr : ∀ c ∈ rest.head?, ¬ p c) :
    (taken ++ rest).dropWhile p = rest := by
  rw [List.dropWhile_append_of_pos ht]
  cases rest with
  | nil => simp
  | cons c rest => rw [List.dropWhile_cons_of_neg (hr c rfl)]

/-- A unit before a body makes a body. -/
theorem IsBody.unit_append {quote : Char} {cs unit rest body after : List Char}
    (hu : bodyUnit? quote cs = some (unit, rest)) (h : IsBody quote body)
    (hr : body ++ after = rest) : IsBody quote (unit ++ body) := by
  unfold bodyUnit? at hu
  split at hu
  · simp at hu
  · next tail =>
    simp only [Option.some.injEq, Prod.mk.injEq] at hu
    obtain ⟨rfl, rfl⟩ := hu
    refine .skip mem_takeWhile_isBlank (fun c hc => ?_) h
    refine not_of_mem_head?_dropWhile isBlank tail c ?_
    rw [← hr, Option.mem_def, List.head?_append, Option.mem_def.1 hc, Option.some_or]
  · next hz =>
    simp only [Option.some.injEq, Prod.mk.injEq] at hu
    obtain ⟨rfl, rfl⟩ := hu
    exact .escape (fun he => hz he) h
  · simp at hu
  · next c tail _ hmore hlast =>
    split at hu
    · simp at hu
    · next hc =>
      simp only [Option.some.injEq, Prod.mk.injEq] at hu
      obtain ⟨rfl, rfl⟩ := hu
      obtain ⟨hq, hn⟩ := not_or.1 hc
      refine .char hq hn (fun hb => ?_) h
      cases tail with
      | nil => exact hlast hb rfl
      | cons d tail => exact hmore d tail hb rfl

theorem isBody_bodyUnits (quote : Char) (cs : List Char) : IsBody quote (bodyUnits quote cs).1 := by
  fun_induction bodyUnits quote cs with
  | case1 => exact .nil
  | case2 cs unit rest h _ body after hb ih =>
    have happ := append_bodyUnits quote rest
    rw [hb] at ih happ
    exact ih.unit_append h happ

/-- The quotes of a literal. -/
def IsQuote (quote : Char) : Prop :=
  quote = '"' ∨ quote = '\x27'

theorem IsQuote.not_isBlank {quote : Char} (h : IsQuote quote) : ¬ isBlank quote := by
  rcases h with rfl | rfl <;> decide

theorem IsQuote.ne {quote c : Char} (h : IsQuote quote) (hd : c ≠ '"') (hs : c ≠ '\x27') :
    quote ≠ c := by
  rcases h with rfl | rfl
  · exact hd.symm
  · exact hs.symm

theorem bodyUnits_of_eq_some {quote : Char} {cs unit rest : List Char}
    (h : bodyUnit? quote cs = some (unit, rest)) :
    bodyUnits quote cs = (unit ++ (bodyUnits quote rest).1, (bodyUnits quote rest).2) := by
  rw [bodyUnits]
  split
  · next hnone => simp [h] at hnone
  · next unit' rest' hsome =>
    rw [h, Option.some.injEq, Prod.mk.injEq] at hsome
    obtain ⟨rfl, rfl⟩ := hsome
    rfl

theorem bodyUnits_of_eq_none {quote : Char} {cs : List Char} (h : bodyUnit? quote cs = none) :
    bodyUnits quote cs = ([], cs) := by
  rw [bodyUnits]
  split
  · rfl
  · next hsome => simp [h] at hsome

/-- A body before its quote is read to its end. -/
theorem IsBody.bodyUnits_append {quote : Char} (hq : IsQuote quote) {body : List Char}
    (h : IsBody quote body) (after : List Char) :
    bodyUnits quote (body ++ quote :: after) = (body, quote :: after) := by
  induction h with
  | nil =>
    refine bodyUnits_of_eq_none ?_
    have hb : quote ≠ '\\' := hq.ne (by decide) (by decide)
    simp [bodyUnit?, hb]
  | @char c body hcq hn hb _ ih =>
    have hunit : bodyUnit? quote (c :: (body ++ quote :: after))
        = some ([c], body ++ quote :: after) := by
      simp [bodyUnit?, hcq, hn, hb]
    rw [List.cons_append, bodyUnits_of_eq_some hunit, ih]
    rfl
  | @skip blanks body hb hmax _ ih =>
    have hhead : ∀ c ∈ (body ++ quote :: after).head?, ¬ isBlank c := by
      intro c hc
      cases body with
      | nil => exact Option.some.inj hc ▸ hq.not_isBlank
      | cons d body => exact hmax c hc
    have hunit : bodyUnit? quote ('\\' :: 'z' :: (blanks ++ (body ++ quote :: after)))
        = some ('\\' :: 'z' :: blanks, body ++ quote :: after) := by
      rw [bodyUnit?, takeWhile_append_of_head? hb hhead, dropWhile_append_of_head? hb hhead]
    rw [List.cons_append, List.cons_append, List.append_assoc, bodyUnits_of_eq_some hunit, ih]
    rfl
  | @escape c body hz _ ih =>
    have hunit : bodyUnit? quote ('\\' :: c :: (body ++ quote :: after))
        = some (['\\', c], body ++ quote :: after) := by
      simp [bodyUnit?]
    rw [List.cons_append, List.cons_append, bodyUnits_of_eq_some hunit, ih]
    rfl

/-- **A body is read** if it is one and the quote follows. -/
theorem takeBody_eq_some_iff {quote : Char} (hq : IsQuote quote) {cs body after : List Char} :
    takeBody quote cs = some (body, after) ↔ IsBody quote body ∧ body ++ quote :: after = cs := by
  constructor
  · intro h
    refine ⟨?_, append_of_takeBody h⟩
    have hbody := isBody_bodyUnits quote cs
    unfold takeBody at h
    split at h
    · next body' c after' hb =>
      split at h
      · rw [Option.some.injEq, Prod.mk.injEq] at h
        rw [hb] at hbody
        exact h.1 ▸ hbody
      · simp at h
    · simp at h
  · rintro ⟨hbody, rfl⟩
    simp [takeBody, hbody.bodyUnits_append hq]

/-! ## Openings -/

/-- What may stand between the keyword and the literal. -/
inductive IsOpening : List Char → Prop
  | blanks {blanks : List Char} (hb : ∀ c ∈ blanks, isBlank c) : IsOpening blanks
  | paren {blanks inner : List Char} (hb : ∀ c ∈ blanks, isBlank c) (hi : ∀ c ∈ inner, isBlank c) :
      IsOpening (blanks ++ '(' :: inner)

theorem drop_length_takeWhile (p : Char → Bool) (cs : List Char) :
    cs.drop (cs.takeWhile p).length = cs.dropWhile p := by
  have happ : cs.takeWhile p ++ cs.drop (cs.takeWhile p).length = cs :=
    List.prefix_iff_eq_append.1 (List.takeWhile_prefix p)
  exact List.append_cancel_left (happ.trans List.takeWhile_append_dropWhile.symm)

theorem take_length_takeWhile (cs : List Char) :
    cs.take (cs.takeWhile isBlank).length = cs.takeWhile isBlank :=
  (List.prefix_iff_eq_take.1 (List.takeWhile_prefix isBlank)).symm

theorem isOpening_take (cs : List Char) : IsOpening (cs.take (openingLength cs)) := by
  simp only [openingLength]
  split
  · next rest hrest =>
    rw [Nat.add_assoc, List.take_add, hrest, take_length_takeWhile, Nat.add_comm 1,
      List.take_succ_cons, take_length_takeWhile]
    exact .paren mem_takeWhile_isBlank mem_takeWhile_isBlank
  · rw [take_length_takeWhile]
    exact .blanks mem_takeWhile_isBlank

/-- The opening before a quote is read to its end. -/
theorem IsOpening.openingLength_append {opening : List Char} (h : IsOpening opening) {quote : Char}
    (hq : IsQuote quote) (rest : List Char) :
    openingLength (opening ++ quote :: rest) = opening.length := by
  have hquote : ∀ c ∈ (quote :: rest).head?, ¬ isBlank c :=
    fun c hc => Option.some.inj hc ▸ hq.not_isBlank
  cases h with
  | blanks hb =>
    have hparen : quote ≠ '(' := hq.ne (by decide) (by decide)
    simp only [openingLength, takeWhile_append_of_head? hb hquote, List.drop_left]
    split
    · next he => exact absurd (List.cons.inj he).1 hparen
    · rfl
  | @paren blanks inner hb hi =>
    have hparen : ∀ c ∈ ('(' :: (inner ++ quote :: rest)).head?, ¬ isBlank c :=
      fun c hc => Option.some.inj hc ▸ by decide
    rw [List.append_assoc, List.cons_append]
    simp only [openingLength, takeWhile_append_of_head? hb hparen, List.drop_left,
      takeWhile_append_of_head? hi hquote, List.length_append, List.length_cons]
    omega

/-! ## Arguments -/

/-- A text is what follows the keyword of a call of a name, up to the closing quote. -/
def IsArgument (name : String) (span : List Char) : Prop :=
  ∃ opening quote body, IsOpening opening ∧ IsQuote quote ∧ IsBody quote body ∧
    decode body = some name ∧ name ≠ "" ∧ span = opening ++ quote :: body ++ [quote]

theorem IsArgument.ne_nil {name : String} {span : List Char} (h : IsArgument name span) :
    span ≠ [] := by
  obtain ⟨opening, quote, body, _, _, _, _, _, rfl⟩ := h
  simp

/-- **An argument is read** exactly where one stands. -/
theorem argument?_eq_some_iff {cs : List Char} {arg : Argument} :
    argument? cs = some arg ↔ IsArgument arg.name arg.span ∧ arg.span ++ arg.rest = cs := by
  constructor
  · intro h
    refine ⟨?_, span_append_rest h⟩
    simp only [argument?] at h
    split at h
    · simp at h
    · next quote rest hrest =>
      split at h
      · next hq =>
        simp only [Option.bind_eq_bind, Option.bind_eq_some_iff] at h
        obtain ⟨⟨body, after⟩, hbody, name, hname, h⟩ := h
        split at h
        · simp at h
        · next hne =>
          obtain rfl := Option.some.inj h
          have hisBody := ((takeBody_eq_some_iff hq).1 hbody).1
          exact ⟨_, quote, body, isOpening_take cs, hq, hisBody, hname, hne, rfl⟩
      · simp at h
  · rintro ⟨⟨opening, quote, body, ho, hq, hbody, hname, hne, hspan⟩, rfl⟩
    have htake : takeBody quote (body ++ quote :: arg.rest) = some (body, arg.rest) :=
      (takeBody_eq_some_iff hq).2 ⟨hbody, rfl⟩
    have hcs : arg.span ++ arg.rest = opening ++ quote :: (body ++ quote :: arg.rest) := by
      simp [hspan]
    have hquote : quote = '"' ∨ quote = '\x27' := hq
    simp only [argument?, hcs, ho.openingLength_append hq, List.drop_left, List.take_left, hquote,
      if_true, htake, hname, Option.bind_eq_bind, Option.bind_some, hne, if_false, ← hspan]

end LuaBundle.Lua
