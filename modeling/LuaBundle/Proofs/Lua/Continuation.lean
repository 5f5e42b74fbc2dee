import LuaBundle.Proofs.Lua.Literals

/-!
# What stands around a literal

Nothing but blanks and one parenthesis may stand before the literal of a call.  What comes after it
is not looked at: a call that is reported stays one whatever follows its closing quote, so the
parenthesis before the literal may stay open, or an operator may follow.  The one thing that can
take the call away is a keyword before it, the literal of which ends in what follows.

* `Site.inText_append_iff`, `commented_append_text_iff`, `accepted_append_text_iff` — a site is
  judged by the text up to its closing quote;
* `Reported.mem_iff_mem_of_cut` — two texts that start alike have the same sites there;
* `calls_of_continuation` — a call stays one whatever follows;
* `call_of_concatenation` — a call of a name that is computed.
-/

set_option autoImplicit false

namespace LuaBundle.Lua

variable {before after more : List Char} {sites sites' : List Site} {t : Site} {k n : Nat}

/-! ## The text up to a place -/

/-- A call ends with a quote. -/
theorem Site.InText.exists_quote {cs : List Char} (h : t.InText cs) :
    ∃ front quote, IsQuote quote ∧ front ++ [quote] <+: cs ∧ t.stop = front.length + 1 := by
  obtain ⟨start, span, rest, rfl, hstart, hstop, harg, _⟩ := h
  obtain ⟨opening, quote, body, _, hq, _, _, _, rfl⟩ := harg
  refine ⟨start ++ keyword ++ (opening ++ quote :: body), quote, hq, ⟨rest, ?_⟩, ?_⟩
  · simp only [List.append_assoc]
  · simp only [hstop, hstart, List.length_append, List.length_singleton, Nat.add_assoc]

theorem Site.InText.stop_le_length {cs : List Char} (h : t.InText cs) : t.stop ≤ cs.length := by
  obtain ⟨front, quote, _, hpart, hstop⟩ := h.exists_quote
  simpa [hstop] using hpart.length_le

/-- A call is written in a text if it is in the part of the text up to its closing quote. -/
theorem Site.inText_append_iff (ht : t.stop ≤ before.length) :
    t.InText (before ++ after) ↔ t.InText before := by
  constructor
  · rintro ⟨front, span, rest, hcs, hstart, hstop, harg, hfront, hnext⟩
    have hlen : (front ++ keyword ++ span).length ≤ before.length := by
      simp only [List.length_append, ← hstart, ← hstop]
      exact ht
    obtain ⟨rest', rfl⟩ := List.prefix_of_prefix_length_le ⟨rest, hcs.symm⟩
      (List.prefix_append before after) hlen
    refine ⟨front, span, rest', rfl, hstart, hstop, harg, hfront, ?_⟩
    rw [List.head?_append_of_ne_nil _ harg.ne_nil] at hnext ⊢
    exact hnext
  · rintro ⟨front, span, rest, rfl, hstart, hstop, harg, hfront, hnext⟩
    refine ⟨front, span, rest ++ after, List.append_assoc .., hstart, hstop, harg, hfront, ?_⟩
    rw [List.head?_append_of_ne_nil _ harg.ne_nil] at hnext ⊢
    exact hnext

theorem commented_append_text_iff (hk : k < before.length) :
    Commented (before ++ after) sites k ↔ Commented before sites k := by
  have hget {i : Nat} (hi : i ≤ k) : (before ++ after)[i]? = before[i]? :=
    List.getElem?_append_left (Nat.lt_of_le_of_lt hi hk)
  simp only [Commented]
  refine exists_congr fun i => and_congr_right fun hi => ?_
  rw [hget (Nat.le_of_lt hi), hget hi]
  refine and_congr_right fun _ => and_congr_right fun _ => and_congr_left fun _ => ?_
  exact forall_congr' fun j => forall_congr' fun _ => forall_congr' fun hj => by
    rw [hget (Nat.le_of_lt hj)]

theorem accepted_append_text_iff (ht : t.stop ≤ before.length) :
    Accepted (before ++ after) sites t ↔ Accepted before sites t := by
  have hstart (h : t.InText before) : t.start < before.length :=
    Nat.lt_of_lt_of_le h.start_lt_stop ht
  constructor
  · rintro ⟨hin, hout, hcom⟩
    rw [Site.inText_append_iff ht] at hin
    rw [commented_append_text_iff (hstart hin)] at hcom
    exact ⟨hin, hout, hcom⟩
  · rintro ⟨hin, hout, hcom⟩
    refine ⟨(Site.inText_append_iff ht).2 hin, hout, fun h => hcom ?_⟩
    exact (commented_append_text_iff (hstart hin)).1 h

/-- The line of a call is counted before it. -/
theorem Site.call_append (ht : t.start ≤ before.length) :
    t.call (before ++ after) = t.call before := by
  rw [Site.call, Site.call, List.take_append_of_le_length ht]

/-! ## Two texts that start alike -/

/-- **Two texts that start alike have the same sites there**, if none of these ends behind the part
that they share. -/
theorem Reported.mem_iff_mem_of_cut (h : Reported (before ++ after) sites)
    (h' : Reported (before ++ more) sites')
    (hcut : ∀ u ∈ sites, u.start < n → u.stop ≤ before.length)
    (hcut' : ∀ u ∈ sites', u.start < n → u.stop ≤ before.length) (ht : t.start < n) :
    t ∈ sites ↔ t ∈ sites' := by
  refine h.mem_iff_mem_of_accepted_iff h' (fun u hu hlt _ => ?_) ht
  have hstop : u.stop ≤ before.length := hu.elim (hcut u · hlt) (hcut' u · hlt)
  exact (accepted_append_text_iff hstop).trans (accepted_append_text_iff hstop).symm

/-! ## What follows a call -/

/-- No keyword before the call has a literal that ends behind the call. -/
def Site.Uncovered (cs : List Char) (t : Site) : Prop :=
  ∀ u : Site, u.InText cs → u.start < t.start → u.stop ≤ t.stop

/-- A literal ends with a quote, so where no quote follows none ends there. -/
theorem Site.uncovered_append (ht : t.stop = before.length) (hmore : ∀ c ∈ more, ¬ IsQuote c) :
    t.Uncovered (before ++ more) := by
  intro u hu _
  by_contra hlt
  obtain ⟨front, quote, hq, ⟨rest, hrest⟩, hstop⟩ := hu.exists_quote
  have hlast : (before ++ more)[front.length]? = some quote := by
    simp [← hrest, List.append_assoc]
  rw [List.getElem?_append_right (by omega)] at hlast
  exact hmore quote (List.mem_of_getElem? hlast) hq

/-- A call counts whatever follows its closing quote. -/
theorem Reported.mem_of_uncovered (h : Reported (before ++ after) sites)
    (h' : Reported (before ++ more) sites') (ht : t ∈ sites) (hstop : t.stop = before.length)
    (hcov : t.Uncovered (before ++ more)) : t ∈ sites' := by
  have hacc := (h.mem_iff t).1 ht
  have hearlier : ∀ u : Site, u.start < t.start → (u ∈ sites ↔ u ∈ sites') := by
    refine fun u hu => h.mem_iff_mem_of_cut h' (fun v hv hlt => ?_) (fun v hv hlt => ?_) hu
    · have hle : v.stop ≤ t.start := hacc.outside v hv hlt
      exact hstop ▸ Nat.le_trans hle (Nat.le_of_lt hacc.inText.start_lt_stop)
    · exact hstop ▸ hcov v ((h'.mem_iff v).1 hv).inText hlt
  have hcount := (accepted_append_text_iff hstop.le).1 hacc
  exact (h'.mem_iff t).2 ((accepted_append_text_iff hstop.le).2 (hcount.congr hearlier))

/-- The text of a call does not depend on what follows it. -/
theorem Site.Written.congr {cs cs' opening body : List Char} {quote : Char}
    (h : t.Written cs opening quote body) (heq : cs'.take t.stop = cs.take t.stop) :
    t.Written cs' opening quote body :=
  { h with text := by rw [heq, h.text] }

/-- A parenthesis before the literal is closed right behind it, perhaps after blanks. -/
def Site.Closed (cs : List Char) (t : Site) (opening : List Char) : Prop :=
  '(' ∈ opening → ((cs.drop t.stop).dropWhile isBlank).head? = some ')'

theorem Site.closed_append_iff {opening : List Char} (ht : t.stop = before.length) :
    t.Closed (before ++ more) opening ↔
      ('(' ∈ opening → (more.dropWhile isBlank).head? = some ')') := by
  rw [Closed, ht, List.drop_left]

/-- **What stands around the literal of a call.**  Before it there are blanks and at most one
parenthesis.  What follows it does not matter: in every text that starts like this one up to the
closing quote the same call is reported, unless the literal of an earlier keyword ends behind it,
for which there has to be a quote.  So a parenthesis is closed only if what follows happens to start
with the closing one. -/
theorem calls_of_continuation (source : String) :
    ∃ sites, Reported source.toList sites ∧
      requireCalls source = sites.map (·.call source.toList) ∧
      ∀ t ∈ sites, ∃ opening quote body, t.Written source.toList opening quote body ∧
        ∀ more : List Char, let cs := source.toList.take t.stop ++ more
          ((∀ c ∈ more, ¬ IsQuote c) → t.Uncovered cs) ∧
          (t.Uncovered cs → ∃ sites', Reported cs sites' ∧ t ∈ sites' ∧
            requireCalls (String.ofList cs) = sites'.map (·.call cs) ∧
            t.call cs = t.call source.toList ∧ t.Written cs opening quote body ∧
            (t.Closed cs opening ↔
              ('(' ∈ opening → (more.dropWhile isBlank).head? = some ')'))) := by
  obtain ⟨sites, hcalls, hrep⟩ := (Scanned.ofString source).exists_reported
  refine ⟨sites, hrep, hcalls, fun t ht => ?_⟩
  have hin := ((hrep.mem_iff t).1 ht).inText
  obtain ⟨opening, quote, body, hwritten⟩ := hin.exists_written
  refine ⟨opening, quote, body, hwritten, fun more => ?_⟩
  have hstop : t.stop = (source.toList.take t.stop).length :=
    (List.length_take_of_le hin.stop_le_length).symm
  refine ⟨Site.uncovered_append hstop, fun hcov => ?_⟩
  obtain ⟨sites', hcalls', hrep'⟩ :=
    (Scanned.ofString (String.ofList (source.toList.take t.stop ++ more))).exists_reported
  rw [String.toList_ofList, List.nil_append] at hrep'
  rw [String.toList_ofList] at hcalls'
  rw [List.nil_append, ← List.take_append_drop t.stop source.toList] at hrep
  refine ⟨sites', hrep', hrep.mem_of_uncovered hrep' ht hstop hcov, hcalls', ?_,
    hwritten.congr (List.take_left' hstop.symm), Site.closed_append_iff hstop⟩
  have hstart : t.start ≤ (source.toList.take t.stop).length :=
    hstop ▸ Nat.le_of_lt hin.start_lt_stop
  conv_rhs => rw [← List.take_append_drop t.stop source.toList]
  rw [Site.call_append hstart, Site.call_append hstart]

/-- At the start of a text there are no comments and no calls before a call. -/
theorem accepted_of_start_eq_zero {cs : List Char} (h : t.InText cs) (h0 : t.start = 0) :
    Accepted cs sites t where
  inText := h
  outside _ _ hlt := by simp [h0] at hlt
  uncommented := by
    rintro ⟨i, hi, _⟩
    simp [h0] at hi

/-- **A call of a name that is computed is reported**, with the part of the name that is written
out: the parenthesis before the literal is not closed behind it. -/
theorem call_of_concatenation :
    let source := "require(\"lib.\" .. name)"
    requireCalls source = [⟨"lib.", 1⟩] ∧
      ∃ sites, Reported source.toList sites ∧
        requireCalls source = sites.map (·.call source.toList) ∧
        ∃ t ∈ sites, ∃ opening quote body, t.Written source.toList opening quote body ∧
          ¬ t.Closed source.toList opening := by
  intro source
  have hbody : takeBody '"' "lib.\" .. name)".toList =
      some ("lib.".toList, " .. name)".toList) := by decide +kernel
  have hopening : IsOpening ['('] := @IsOpening.paren [] [] (by simp) (by simp)
  have hisBody : IsBody '"' "lib.".toList := ((takeBody_eq_some_iff (.inl rfl)).1 hbody).1
  have hname : decode "lib.".toList = some "lib." := by decide +kernel
  have hin : Site.InText source.toList ⟨0, 14, "lib."⟩ := by
    refine ⟨[], "(\"lib.\"".toList, " .. name)".toList, by decide +kernel, rfl, by decide +kernel,
      ?_, by simp, fun c hc => Option.some.inj hc ▸ by decide⟩
    exact ⟨['('], '"', "lib.".toList, hopening, .inl rfl, hisBody, hname, by decide,
      by decide +kernel⟩
  obtain ⟨sites, hcalls, hrep⟩ := (Scanned.ofString source).exists_reported
  have hmem := (hrep.mem_iff _).2 (accepted_of_start_eq_zero hin rfl)
  refine ⟨by decide +kernel, sites, hrep, hcalls, _, hmem, ['('], '"', "lib.".toList, ?_, ?_⟩
  · exact ⟨hopening, .inl rfl, hisBody, hname, by decide +kernel⟩
  · intro hclosed
    exact absurd (hclosed (by simp)) (by decide +kernel)

end LuaBundle.Lua
