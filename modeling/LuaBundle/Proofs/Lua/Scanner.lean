import LuaBundle.Proofs.Lua.Sites

/-!
# What the scanner reports

The scanner passes a text in steps.  What it has found when it has passed a part of the text are the
sites in that part that count, and whether it stands in a comment is whether that place is
commented.

* `Scanner.Step` — the six things that a step can be, and `step_of_step?`: it is one of them.
* `Scanned` — what holds at every place the scanner stops at, with one lemma for every kind of step:
  `Scanned.pass` for those that pass no call, `Scanned.call` for the one that does.
* `requireCalls_eq_sites` — the calls of a text are its sites that count.
-/

set_option autoImplicit false

namespace LuaBundle.Lua

namespace Scanner

variable {s t : Scanner} {call? : Option RequireCall}

/-! ## Steps -/

/-- What one step does. -/
inductive Step (s : Scanner) : Scanner → Option RequireCall → Prop
  | newline {rest : List Char} (h : s.rest = '\n' :: rest) :
      Step s { before := some '\n', rest, line := s.line + 1 } none
  | comment {c : Char} {rest : List Char} (h : s.rest = c :: rest) (hn : c ≠ '\n')
      (hc : s.inComment) : Step s { s with before := some c, rest } none
  | hyphens {rest : List Char} (h : s.rest = '-' :: '-' :: rest) (hc : ¬ s.inComment) :
      Step s { s with before := some '-', rest, inComment := true } none
  | char {c : Char} {rest : List Char} (h : s.rest = c :: rest) (hn : c ≠ '\n')
      (hc : ¬ s.inComment) (hd : ¬ (c = '-' ∧ rest.head? = some '-')) (hk : s.keyword? = none) :
      Step s { s with before := some c, rest } none
  | keyword {after : List Char} (hc : ¬ s.inComment) (hk : s.keyword? = some after)
      (ha : argument? after = none) :
      Step s { s with before := keyword.getLast?, rest := after } none
  | call {after : List Char} {arg : Argument} (hc : ¬ s.inComment) (hk : s.keyword? = some after)
      (ha : argument? after = some arg) :
      Step s { s with
          before := arg.span.getLast?
          rest := arg.rest
          line := s.line + arg.span.count '\n' }
        (some ⟨arg.name, s.line⟩)

theorem step_of_step? (h : s.step? = some (t, call?)) : Step s t call? := by
  unfold step? at h
  split at h
  · simp at h
  next c rest hs =>
  split at h
  · next hc =>
    obtain ⟨rfl, rfl⟩ := Prod.mk.inj (Option.some.inj h)
    rw [hc]
    exact .newline (hc ▸ hs)
  next hn =>
  split at h
  · next hc =>
    obtain ⟨rfl, rfl⟩ := Prod.mk.inj (Option.some.inj h)
    exact .comment hs hn hc
  next hc =>
  split at h
  · next hd =>
    obtain ⟨rfl, rfl⟩ := Prod.mk.inj (Option.some.inj h)
    obtain ⟨tail, rfl⟩ := List.head?_eq_some_iff.1 hd.2
    rw [hd.1] at hs ⊢
    exact .hyphens hs hc
  next hd =>
  split at h
  · next hk =>
    obtain ⟨rfl, rfl⟩ := Prod.mk.inj (Option.some.inj h)
    exact .char hs hn hc hd hk
  next after hk =>
  split at h
  · next ha =>
    obtain ⟨rfl, rfl⟩ := Prod.mk.inj (Option.some.inj h)
    exact .keyword hc hk ha
  · next arg ha =>
    obtain ⟨rfl, rfl⟩ := Prod.mk.inj (Option.some.inj h)
    exact .call hc hk ha

theorem step?_eq_none_iff : s.step? = none ↔ s.rest = [] := by
  constructor
  · intro h
    unfold step? at h
    split at h
    · assumption
    · repeat' split at h
      all_goals simp at h
  · intro h
    simp [step?, h]

theorem next?_eq (s : Scanner) :
    s.next? = match s.step? with
      | none => none
      | some (t, some call) => some (call, t)
      | some (t, none) => t.next? := by
  rw [next?]
  split <;> simp [*]

theorem calls_eq (s : Scanner) :
    s.calls = match s.next? with
      | none => []
      | some (call, t) => call :: t.calls := by
  rw [calls]
  split <;> simp [*]

theorem calls_of_step?_eq_none (h : s.step? = none) : s.calls = [] := by
  rw [calls_eq, next?_eq, h]

/-- The calls from a place on are the one that the next step passes, if it does, and those after it.
-/
theorem calls_of_step? (h : s.step? = some (t, call?)) : s.calls = call?.toList ++ t.calls := by
  rw [calls_eq, next?_eq, h]
  cases call? with
  | none => exact (calls_eq t).symm
  | some call => rfl

theorem keyword?_eq_some_iff {after : List Char} :
    s.keyword? = some after ↔ keyword ++ after = s.rest ∧ (∀ c ∈ s.before, ¬ isNameChar c) ∧
      ∀ c ∈ after.head?, ¬ isNameChar c := by
  constructor
  · intro h
    refine ⟨keyword_append_of_keyword? h, ?_⟩
    simp only [keyword?] at h
    split at h
    · next hcond =>
      obtain rfl := Option.some.inj h
      rw [Bool.and_assoc, Bool.and_eq_true] at hcond
      simpa [Option.any_eq_false] using hcond.2
    · simp at h
  · rintro ⟨hrest, hbefore, hafter⟩
    have hb : s.before.any isNameChar = false := by simpa [Option.any_eq_false] using hbefore
    have ha : after.head?.any isNameChar = false := by simpa [Option.any_eq_false] using hafter
    simp [keyword?, ← hrest, hb, ha]

end Scanner

/-! ## Places -/

/-- A scanner stands in a text, behind a part of it, and has found the sites in that part. -/
structure Scanned (cs before : List Char) (s : Scanner) (sites : List Site) : Prop where
  text : before ++ s.rest = cs
  last : s.before = before.getLast?
  line : s.line = 1 + before.count '\n'
  comment : s.inComment ↔ Commented cs sites before.length
  order : sites.Pairwise fun t u => t.stop ≤ u.start
  bounds : ∀ t ∈ sites, t.start < t.stop ∧ t.stop ≤ before.length
  mem_iff : ∀ t, t.start < before.length → (t ∈ sites ↔ Accepted cs sites t)

namespace Scanned

variable {cs before : List Char} {s : Scanner} {sites : List Site} {t : Site}

theorem ofString (source : String) : Scanned source.toList [] (.ofString source) [] where
  text := rfl
  last := rfl
  line := rfl
  comment := by simp [Scanner.ofString, Commented]
  order := .nil
  bounds := by simp
  mem_iff := by simp

theorem getElem?_add (h : Scanned cs before s sites) (i : Nat) :
    cs[before.length + i]? = s.rest[i]? := by
  rw [← h.text, List.getElem?_append_right (Nat.le_add_right _ _), Nat.add_sub_cancel_left]

theorem not_mem_of_le (h : Scanned cs before s sites) (ht : before.length ≤ t.start) : t ∉ sites :=
  fun hmem => by
    obtain ⟨hlt, hle⟩ := h.bounds t hmem
    omega

/-- A call is written here exactly if the scanner sees its keyword and its argument. -/
theorem inText_iff (h : Scanned cs before s sites) (ht : t.start = before.length) :
    t.InText cs ↔ ∃ after arg, s.keyword? = some after ∧ argument? after = some arg ∧
      arg.name = t.name ∧ t.stop = before.length + (keyword ++ arg.span).length := by
  simp only [Scanner.keyword?_eq_some_iff, argument?_eq_some_iff, h.last, ← h.text]
  constructor
  · rintro ⟨before', span, after, hcs, hstart, hstop, harg, hb, ha⟩
    have hlen : before'.length = before.length := hstart.symm.trans ht
    rw [h.text, List.append_assoc, List.append_assoc] at hcs
    obtain ⟨rfl, hrest⟩ := List.append_inj (h.text.trans hcs) hlen.symm
    refine ⟨span ++ after, ⟨t.name, span, after⟩, ⟨hrest.symm, hb, ha⟩, ⟨harg, rfl⟩, rfl, ?_⟩
    rw [hstop, ht, List.length_append, Nat.add_assoc]
  · rintro ⟨after, arg, ⟨hrest, hb, ha⟩, ⟨harg, happ⟩, hname, hstop⟩
    refine ⟨before, arg.span, arg.rest, ?_, ht, ?_, hname ▸ harg, hb, happ ▸ ha⟩
    · rw [List.append_assoc, List.append_assoc, happ, hrest]
    · rw [hstop, ht, List.length_append, Nat.add_assoc]

/-! ## Steps that pass no call -/

/-- The scanner passes some characters, none of which starts a site that counts. -/
theorem pass (h : Scanned cs before s sites) {passed : List Char} {s' : Scanner}
    (hrest : passed ++ s'.rest = s.rest) (hne : passed ≠ []) (hlast : s'.before = passed.getLast?)
    (hline : s'.line = s.line + passed.count '\n')
    (hcom : s'.inComment ↔ Commented cs sites (before.length + passed.length))
    (hno : ∀ t : Site, before.length ≤ t.start → t.start < before.length + passed.length →
      ¬ Accepted cs sites t) :
    Scanned cs (before ++ passed) s' sites where
  text := by rw [List.append_assoc, hrest, h.text]
  last := by rw [hlast, List.getLast?_append_of_ne_nil _ hne]
  line := by rw [hline, h.line, List.count_append, Nat.add_assoc]
  comment := by rw [hcom, List.length_append]
  order := h.order
  bounds t ht := ⟨(h.bounds t ht).1, by
    rw [List.length_append]
    exact Nat.le_trans (h.bounds t ht).2 (Nat.le_add_right _ _)⟩
  mem_iff t ht := by
    rw [List.length_append] at ht
    rcases Nat.lt_or_ge t.start before.length with hlt | hge
    · exact h.mem_iff t hlt
    · exact iff_of_false (h.not_mem_of_le hge) (hno t hge ht)

/-- Where no line break is passed a comment stays one. -/
theorem commented_add (h : Scanned cs before s sites) {n : Nat} (hc : s.inComment)
    (hn : ∀ j < n, s.rest[j]? ≠ some '\n') : Commented cs sites (before.length + n) := by
  refine (h.comment.1 hc).mono (Nat.le_add_right _ _) fun j hj hlt => ?_
  obtain ⟨i, rfl⟩ := Nat.exists_eq_add_of_le hj
  rw [h.getElem?_add]
  exact hn i (Nat.lt_of_add_lt_add_left hlt)

/-- Where no hyphens are passed no comment starts. -/
theorem not_commented_add (h : Scanned cs before s sites) {n : Nat} (hc : ¬ s.inComment)
    (hd : ∀ j < n, s.rest[j]? = some '-' → s.rest[j + 1]? ≠ some '-') :
    ¬ Commented cs sites (before.length + n) := by
  intro hcom
  refine hc (h.comment.2 ?_)
  rw [← List.append_nil sites] at hcom
  refine hcom.restrict (Nat.le_add_right _ _) fun i hi hlt hh hh' => ?_
  obtain ⟨j, rfl⟩ := Nat.exists_eq_add_of_le hi
  rw [h.getElem?_add] at hh
  rw [Nat.add_assoc, h.getElem?_add] at hh'
  exact absurd hh' (hd j (Nat.lt_of_add_lt_add_left hlt) hh)

/-- A site starts with the first character of the keyword. -/
theorem not_accepted_of_ne (h : Scanned cs before s sites) {i : Nat} {c : Char}
    (hi : s.rest[i]? = some c) (hc : c ≠ 'r') (ht : t.start = before.length + i) :
    ¬ Accepted cs sites t := by
  intro hacc
  have hr := hacc.inText.getElem?_start
  rw [ht, h.getElem?_add, hi, Option.some.injEq] at hr
  exact hc hr

/-- A step over one character. -/
theorem pass_char (h : Scanned cs before s sites) {c : Char} {s' : Scanner}
    (hrest : s.rest = c :: s'.rest) (hlast : s'.before = some c)
    (hline : s'.line = s.line + [c].count '\n')
    (hcom : s'.inComment ↔ Commented cs sites (before.length + 1))
    (hno : ∀ t : Site, t.start = before.length → ¬ Accepted cs sites t) :
    Scanned cs (before ++ [c]) s' sites :=
  h.pass hrest.symm (List.cons_ne_nil _ _) hlast hline hcom fun _ hle hlt =>
    hno _ (Nat.le_antisymm (Nat.le_of_lt_succ hlt) hle)

theorem newline (h : Scanned cs before s sites) {rest : List Char} (hs : s.rest = '\n' :: rest) :
    Scanned cs (before ++ ['\n']) { before := some '\n', rest, line := s.line + 1 } sites := by
  have hbreak : cs[before.length]? = some '\n' := by simpa [hs] using h.getElem?_add 0
  refine h.pass_char hs rfl rfl (iff_of_false (by simp) ?_) fun t ht =>
    h.not_accepted_of_ne (i := 0) (by rw [hs]; rfl) (by decide) ht
  rintro ⟨i, hi, -, -, hline, -⟩
  exact hline before.length (Nat.le_of_lt_succ hi) (Nat.lt_succ_self _) hbreak

theorem comment_char (h : Scanned cs before s sites) {c : Char} {rest : List Char}
    (hs : s.rest = c :: rest) (hn : c ≠ '\n') (hc : s.inComment) :
    Scanned cs (before ++ [c]) { s with before := some c, rest } sites := by
  refine h.pass_char hs rfl (by simp [hn]) (iff_of_true hc ?_) fun t ht hacc => ?_
  · refine h.commented_add hc fun j hj => ?_
    rw [Nat.lt_one_iff.1 hj, hs]
    simpa using hn
  · exact hacc.uncommented (ht ▸ h.comment.1 hc)

theorem hyphens (h : Scanned cs before s sites) {rest : List Char}
    (hs : s.rest = '-' :: '-' :: rest) :
    Scanned cs (before ++ ['-', '-'])
      { s with before := some '-', rest, inComment := true } sites := by
  have hget (i : Nat) : cs[before.length + i]? = ('-' :: '-' :: rest)[i]? := hs ▸ h.getElem?_add i
  refine h.pass hs.symm (by simp) rfl rfl (iff_of_true rfl ?_) fun t hle hlt => ?_
  · refine ⟨before.length, by simp, hget 0, hget 1, fun j hj hlt => ?_, fun t ht hcov => ?_⟩
    · obtain ⟨i, rfl⟩ := Nat.exists_eq_add_of_le hj
      rw [hget]
      have hi : i < 2 := Nat.lt_of_add_lt_add_left hlt
      match i, hi with
      | 0, _ | 1, _ => simp
    · exact absurd hcov.2 (Nat.not_lt.2 (h.bounds t ht).2)
  · obtain ⟨i, hi⟩ := Nat.exists_eq_add_of_le hle
    have hi2 : i < 2 := Nat.lt_of_add_lt_add_left (hi ▸ hlt)
    refine h.not_accepted_of_ne (i := i) (c := '-') ?_ (by decide) hi
    match i, hi2 with
    | 0, _ | 1, _ => rw [hs]; rfl

theorem char (h : Scanned cs before s sites) {c : Char} {rest : List Char} (hs : s.rest = c :: rest)
    (hn : c ≠ '\n') (hc : ¬ s.inComment) (hd : ¬ (c = '-' ∧ rest.head? = some '-'))
    (hk : s.keyword? = none) :
    Scanned cs (before ++ [c]) { s with before := some c, rest } sites := by
  refine h.pass_char hs rfl (by simp [hn]) (iff_of_false hc ?_) fun t ht hacc => ?_
  · refine h.not_commented_add hc fun j hj hh hh' => hd ?_
    rw [Nat.lt_one_iff.1 hj, hs] at hh hh'
    exact ⟨Option.some.inj hh, by rwa [List.head?_eq_getElem?]⟩
  · obtain ⟨after, _, hk', _⟩ := (h.inText_iff ht).1 hacc.inText
    simp [hk] at hk'

theorem mem_keyword {i : Nat} {c : Char} (hc : keyword[i]? = some c) :
    isNameChar c ∧ c ≠ '-' ∧ c ≠ '\n' := by
  have hall : keyword.all fun d => isNameChar d && d != '-' && d != '\n' := by decide
  simpa [and_assoc] using List.all_eq_true.1 hall c (List.mem_of_getElem? hc)

/-- A keyword without an argument: the places inside of it have a letter before them. -/
theorem keyword (h : Scanned cs before s sites) {after : List Char} (hc : ¬ s.inComment)
    (hk : s.keyword? = some after) (ha : argument? after = none) :
    Scanned cs (before ++ Lua.keyword)
      { s with before := Lua.keyword.getLast?, rest := after } sites := by
  have hrest := Scanner.keyword_append_of_keyword? hk
  have hget {i : Nat} (hi : i < Lua.keyword.length) : s.rest[i]? = Lua.keyword[i]? := by
    rw [← hrest, List.getElem?_append_left hi]
  refine h.pass hrest (by decide) rfl (by simp [Lua.keyword]) (iff_of_false hc ?_)
    fun t hle hlt => ?_
  · refine h.not_commented_add hc fun j hj hh => ?_
    rw [hget hj] at hh
    exact absurd rfl (mem_keyword hh).2.1
  · intro hacc
    obtain ⟨i, hi⟩ := Nat.exists_eq_add_of_le hle
    cases i with
    | zero =>
      obtain ⟨after', arg, hk', ha', _⟩ := (h.inText_iff hi).1 hacc.inText
      rw [hk, Option.some.injEq] at hk'
      simp [← hk', ha] at ha'
    | succ i =>
      have hi7 : i < Lua.keyword.length := by omega
      have hchar := h.getElem?_add i
      rw [hget hi7, List.getElem?_eq_getElem hi7] at hchar
      exact hacc.inText.not_isNameChar hi hchar (mem_keyword (List.getElem?_eq_getElem hi7)).1

/-! ## The step that passes a call -/

/-- The site of a call that the scanner sees. -/
def site (before : List Char) (arg : Argument) : Site where
  start := before.length
  stop := before.length + (Lua.keyword ++ arg.span).length
  name := arg.name

/-- A call: its site is the one that counts there. -/
theorem call (h : Scanned cs before s sites) {after : List Char} {arg : Argument}
    (hc : ¬ s.inComment) (hk : s.keyword? = some after) (ha : argument? after = some arg) :
    Scanned cs (before ++ (Lua.keyword ++ arg.span))
      { s with
        before := arg.span.getLast?
        rest := arg.rest
        line := s.line + arg.span.count '\n' }
      (sites ++ [site before arg]) := by
  have hspan : arg.span ≠ [] := (argument?_eq_some_iff.1 ha).1.ne_nil
  have hrest : (Lua.keyword ++ arg.span) ++ arg.rest = s.rest := by
    rw [List.append_assoc, span_append_rest ha, Scanner.keyword_append_of_keyword? hk]
  have hpos : before.length < (site before arg).stop := by simp [site, Lua.keyword]
  refine ⟨by rw [List.append_assoc, hrest, h.text], ?_, ?_, ?_, ?_, ?_, ?_⟩
  · rw [List.getLast?_append_of_ne_nil _ (by simp [Lua.keyword]),
      List.getLast?_append_of_ne_nil _ hspan]
  · have hzero : Lua.keyword.count '\n' = 0 := by decide
    simp only [h.line, List.count_append, hzero]
    omega
  · refine iff_of_false hc fun hcom => hc (h.comment.2 ?_)
    refine hcom.restrict (by simp) fun i hi hlt _ _ => ?_
    exact ⟨_, List.mem_singleton_self _, hi, by rwa [List.length_append] at hlt⟩
  · rw [List.pairwise_append]
    refine ⟨h.order, List.pairwise_singleton _ _, fun t ht u hu => ?_⟩
    rw [List.mem_singleton.1 hu]
    exact (h.bounds t ht).2
  · intro t ht
    rw [List.length_append]
    rcases List.mem_append.1 ht with ht | ht
    · exact ⟨(h.bounds t ht).1, Nat.le_trans (h.bounds t ht).2 (Nat.le_add_right _ _)⟩
    · rw [List.mem_singleton.1 ht]
      exact ⟨hpos, Nat.le_refl _⟩
  · intro t ht
    rw [List.length_append] at ht
    have hmem : t ∈ sites ++ [site before arg] ↔ t ∈ sites ∨ t = site before arg := by simp
    rw [hmem]
    rcases Nat.lt_trichotomy t.start before.length with hlt | heq | hgt
    · have hne : t ≠ site before arg := fun he => by
        rw [he] at hlt
        exact Nat.lt_irrefl _ hlt
      rw [or_iff_left hne, h.mem_iff t hlt, accepted_append_iff]
      exact fun u hu => List.mem_singleton.1 hu ▸ Nat.le_of_lt hlt
    · rw [or_iff_right (h.not_mem_of_le heq.ge), accepted_append_iff
        (fun u hu => List.mem_singleton.1 hu ▸ heq.le)]
      constructor
      · rintro rfl
        refine ⟨(h.inText_iff rfl).2 ⟨after, arg, hk, ha, rfl, rfl⟩,
          fun u hu _ => (h.bounds u hu).2, fun hcom => hc (h.comment.2 hcom)⟩
      · intro hacc
        obtain ⟨after', arg', hk', ha', hname, hstop⟩ := (h.inText_iff heq).1 hacc.inText
        rw [hk, Option.some.injEq] at hk'
        rw [← hk', ha, Option.some.injEq] at ha'
        rw [← ha'] at hname hstop
        rw [site, ← hstop, hname, ← heq]
    · refine iff_of_false ?_ fun hacc => ?_
      · rintro (hmem | rfl)
        · exact h.not_mem_of_le (Nat.le_of_lt hgt) hmem
        · exact Nat.lt_irrefl _ hgt
      · exact Nat.not_le.2 ht (hacc.outside (site before arg) (by simp) hgt)

/-! ## The whole text -/

/-- A step that passes no call keeps the sites. -/
theorem of_step_none (h : Scanned cs before s sites) {s' : Scanner} (hs : s.Step s' none) :
    ∃ before', Scanned cs before' s' sites := by
  cases hs with
  | newline hr => exact ⟨_, h.newline hr⟩
  | comment hr hn hc => exact ⟨_, h.comment_char hr hn hc⟩
  | hyphens hr hc => exact ⟨_, h.hyphens hr⟩
  | char hr hn hc hd hk => exact ⟨_, h.char hr hn hc hd hk⟩
  | keyword hc hk ha => exact ⟨_, h.keyword hc hk ha⟩

/-- A step that passes a call adds its site. -/
theorem of_step_some (h : Scanned cs before s sites) {s' : Scanner} {call : RequireCall}
    (hs : s.Step s' (some call)) :
    ∃ before' t, Scanned cs before' s' (sites ++ [t]) ∧ t.call cs = call := by
  cases hs with
  | @call after arg hc hk ha =>
    refine ⟨_, _, h.call hc hk ha, ?_⟩
    have htake : cs.take before.length = before := by rw [← h.text, List.take_left]
    rw [Site.call, site, htake, h.line]

/-- At the end of the text the sites are those that count. -/
theorem reported (h : Scanned cs before s sites) (hs : s.rest = []) : Reported cs sites where
  order := h.order
  mem_iff t := by
    have hcs : before = cs := by rw [← h.text, hs, List.append_nil]
    rcases Nat.lt_or_ge t.start before.length with hlt | hge
    · exact h.mem_iff t hlt
    · refine iff_of_false (h.not_mem_of_le hge) fun hacc => ?_
      have hr := hacc.inText.getElem?_start
      rw [← hcs, List.getElem?_eq_none hge] at hr
      simp at hr

/-- **From every place on** the scanner reports the sites that are still to come. -/
theorem exists_reported (h : Scanned cs before s sites) :
    ∃ more, s.calls = more.map (·.call cs) ∧ Reported cs (sites ++ more) := by
  induction hn : s.rest.length using Nat.strongRecOn generalizing before s sites with
  | _ n ih =>
    cases hs : s.step? with
    | none =>
      refine ⟨[], by rw [Scanner.calls_of_step?_eq_none hs, List.map_nil], ?_⟩
      rw [List.append_nil]
      exact h.reported (Scanner.step?_eq_none_iff.1 hs)
    | some next =>
      obtain ⟨s', call?⟩ := next
      have hlt : s'.rest.length < n := hn ▸ Scanner.length_of_step? hs
      have hcalls := Scanner.calls_of_step? hs
      cases call? with
      | none =>
        obtain ⟨before', h'⟩ := h.of_step_none (Scanner.step_of_step? hs)
        obtain ⟨more, hmore, hrep⟩ := ih _ hlt h' rfl
        exact ⟨more, hcalls.trans hmore, hrep⟩
      | some call =>
        obtain ⟨before', t, h', rfl⟩ := h.of_step_some (Scanner.step_of_step? hs)
        obtain ⟨more, hmore, hrep⟩ := ih _ hlt h' rfl
        refine ⟨t :: more, ?_, by rwa [List.append_assoc] at hrep⟩
        rw [hcalls, hmore, List.map_cons]
        rfl

end Scanned

/-- **The calls of a text are its sites that count**, in order; there is only one list of these. -/
theorem requireCalls_eq_sites (source : String) :
    ∃ sites, Reported source.toList sites ∧
      (∀ sites', Reported source.toList sites' → sites' = sites) ∧
      requireCalls source = sites.map (·.call source.toList) := by
  obtain ⟨sites, hcalls, hrep⟩ := (Scanned.ofString source).exists_reported
  exact ⟨sites, hrep, fun _ h => h.eq hrep, hcalls⟩

end LuaBundle.Lua
