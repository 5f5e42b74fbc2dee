import LuaBundle.Proofs.Lua.Argument
import Mathlib.Data.List.Sort

/-!
# The calls of a text

Which calls a text has is said here without a scanner.  A `Site` is a place where a call is written;
it counts unless it lies inside of an earlier call or behind two hyphens that are on its line and
outside of earlier calls.

* `Site.InText` — what is written at a site;
* `Commented` and `Accepted` — which sites count, given those that do;
* `Reported` and `Reported.eq` — a text has one list of sites that count.

Places are counted in characters.  All that matters to a site is ASCII, so bytes would do as well.
-/

set_option autoImplicit false

namespace LuaBundle.Lua

/-- A place where a call is written, from its keyword past its closing quote. -/
structure Site where
  start : Nat
  stop : Nat
  /-- The name that is required. -/
  name : String
  deriving DecidableEq, Repr

namespace Site

/-- Whether a place lies inside of the call. -/
def Covers (t : Site) (i : Nat) : Prop :=
  t.start ≤ i ∧ i < t.stop

/-- The call is written there: the keyword as a whole word, and an argument of the name. -/
def InText (cs : List Char) (t : Site) : Prop :=
  ∃ before span after, cs = before ++ keyword ++ span ++ after ∧ t.start = before.length ∧
    t.stop = t.start + keyword.length + span.length ∧ IsArgument t.name span ∧
    (∀ c ∈ before.getLast?, ¬ isNameChar c) ∧ ∀ c ∈ (span ++ after).head?, ¬ isNameChar c

/-- What is reported: the line is one more than the line breaks before the keyword. -/
def call (cs : List Char) (t : Site) : RequireCall where
  name := t.name
  line := 1 + (cs.take t.start).count '\n'

end Site

/-- Two hyphens stand before a place, on the same line and outside of the calls. -/
def Commented (cs : List Char) (sites : List Site) (k : Nat) : Prop :=
  ∃ i < k, cs[i]? = some '-' ∧ cs[i + 1]? = some '-' ∧
    (∀ j, i ≤ j → j < k → cs[j]? ≠ some '\n') ∧ ∀ t ∈ sites, ¬ t.Covers i

/-- A site counts beside some sites. -/
structure Accepted (cs : List Char) (sites : List Site) (t : Site) : Prop where
  inText : t.InText cs
  outside : ∀ u ∈ sites, u.start < t.start → u.stop ≤ t.start
  uncommented : ¬ Commented cs sites t.start

/-- The sites of a text that count, in order. -/
structure Reported (cs : List Char) (sites : List Site) : Prop where
  order : sites.Pairwise fun t u => t.stop ≤ u.start
  mem_iff : ∀ t, t ∈ sites ↔ Accepted cs sites t

/-! ## Sites -/

variable {cs : List Char} {sites : List Site} {t u : Site} {i j k : Nat}

theorem Site.InText.start_lt_stop (h : t.InText cs) : t.start < t.stop := by
  obtain ⟨_, _, _, _, _, hstop, _⟩ := h
  simp only [keyword, List.length_cons] at hstop
  omega

theorem Site.InText.getElem?_start (h : t.InText cs) : cs[t.start]? = some 'r' := by
  obtain ⟨before, span, after, rfl, hstart, _⟩ := h
  simp [hstart, keyword]

theorem Site.InText.not_isNameChar (h : t.InText cs) (hi : t.start = i + 1) {c : Char}
    (hc : cs[i]? = some c) : ¬ isNameChar c := by
  obtain ⟨before, span, after, rfl, hstart, _, _, hbefore, _⟩ := h
  refine hbefore c ?_
  have hlen : i + 1 = before.length := hi.symm.trans hstart
  rw [Option.mem_def, List.getLast?_eq_getElem?, ← hlen, Nat.add_sub_cancel]
  simpa [List.getElem?_append_left, ← hlen] using hc

/-! ## Comments -/

theorem Commented.mono (h : Commented cs sites k) {l : Nat} (hl : k ≤ l)
    (hn : ∀ j, k ≤ j → j < l → cs[j]? ≠ some '\n') : Commented cs sites l := by
  obtain ⟨i, hi, hd, hd', hline, hout⟩ := h
  refine ⟨i, Nat.lt_of_lt_of_le hi hl, hd, hd', fun j hj hjl => ?_, hout⟩
  rcases Nat.lt_or_ge j k with hlt | hge
  · exact hline j hj hlt
  · exact hn j hge hjl

/-- Where no hyphens were passed, but perhaps inside of further calls, a comment is an old one. -/
theorem Commented.restrict {more : List Site} {l : Nat} (h : Commented cs (sites ++ more) l)
    (hl : k ≤ l) (hd : ∀ i, k ≤ i → i < l → cs[i]? = some '-' → cs[i + 1]? = some '-' →
      ∃ t ∈ more, t.Covers i) : Commented cs sites k := by
  obtain ⟨i, hi, hh, hh', hline, hout⟩ := h
  rcases Nat.lt_or_ge i k with hlt | hge
  · exact ⟨i, hlt, hh, hh', fun j hj hjk => hline j hj (Nat.lt_of_lt_of_le hjk hl),
      fun t ht => hout t (List.mem_append_left _ ht)⟩
  · obtain ⟨t, ht, hcov⟩ := hd i hge hi hh hh'
    exact absurd hcov (hout t (List.mem_append_right _ ht))

/-- Later calls do not matter to a comment. -/
theorem commented_append_iff {more : List Site} (hk : ∀ t ∈ more, k ≤ t.start) :
    Commented cs (sites ++ more) k ↔ Commented cs sites k := by
  constructor
  · exact fun h => h.restrict (Nat.le_refl k) fun i hi hlt => absurd hlt (Nat.not_lt.2 hi)
  · rintro ⟨i, hi, hh, hh', hline, hout⟩
    refine ⟨i, hi, hh, hh', hline, fun t ht hcov => ?_⟩
    rcases List.mem_append.1 ht with ht | ht
    · exact hout t ht hcov
    · exact absurd (Nat.lt_of_le_of_lt hcov.1 hi) (Nat.not_lt.2 (hk t ht))

theorem accepted_append_iff {more : List Site} (hk : ∀ u ∈ more, t.start ≤ u.start) :
    Accepted cs (sites ++ more) t ↔ Accepted cs sites t := by
  constructor
  · rintro ⟨hin, hout, hcom⟩
    exact ⟨hin, fun u hu => hout u (List.mem_append_left _ hu),
      fun h => hcom ((commented_append_iff hk).2 h)⟩
  · rintro ⟨hin, hout, hcom⟩
    refine ⟨hin, fun u hu hlt => ?_, fun h => hcom ((commented_append_iff hk).1 h)⟩
    rcases List.mem_append.1 hu with hu | hu
    · exact hout u hu hlt
    · exact absurd hlt (Nat.not_lt.2 (hk u hu))

/-! ## There is one list -/

/-- Only the sites before a site matter to it. -/
theorem Accepted.congr {sites' : List Site} (h : ∀ u, u.start < t.start → (u ∈ sites ↔ u ∈ sites'))
    (ht : Accepted cs sites t) : Accepted cs sites' t where
  inText := ht.inText
  outside u hu hlt := ht.outside u ((h u hlt).2 hu) hlt
  uncommented := by
    rintro ⟨i, hi, hh, hh', hline, hout⟩
    refine ht.uncommented ⟨i, hi, hh, hh', hline, fun u hu hcov => ?_⟩
    exact hout u ((h u (Nat.lt_of_le_of_lt hcov.1 hi)).1 hu) hcov

/-- Two texts have the same sites up to a place if what is a site there counts in both or in none.
-/
theorem Reported.mem_iff_mem_of_accepted_iff {cs' : List Char} {sites' : List Site}
    (h : Reported cs sites) (h' : Reported cs' sites')
    (hacc : ∀ u, u ∈ sites ∨ u ∈ sites' → u.start < k → ∀ others,
      Accepted cs others u ↔ Accepted cs' others u) (ht : t.start < k) : t ∈ sites ↔ t ∈ sites' := by
  induction hn : t.start using Nat.strongRecOn generalizing t with
  | _ n ih =>
    have before : ∀ u : Site, u.start < t.start → (u ∈ sites ↔ u ∈ sites') :=
      fun u hlt => ih u.start (hn ▸ hlt) (Nat.lt_trans hlt ht) rfl
    constructor
    · intro hmem
      have hcount := (hacc t (.inl hmem) ht sites).1 ((h.mem_iff t).1 hmem)
      exact (h'.mem_iff t).2 (hcount.congr before)
    · intro hmem
      have hcount := (hacc t (.inr hmem) ht sites').2 ((h'.mem_iff t).1 hmem)
      exact (h.mem_iff t).2 (hcount.congr fun u hlt => (before u hlt).symm)

theorem Reported.mem_iff_mem {sites' : List Site} (h : Reported cs sites) (h' : Reported cs sites')
    (t : Site) : t ∈ sites ↔ t ∈ sites' :=
  h.mem_iff_mem_of_accepted_iff h' (fun _ _ _ _ => Iff.rfl) (Nat.lt_succ_self t.start)

theorem Reported.pairwise_start (h : Reported cs sites) :
    sites.Pairwise fun t u => t.start < u.start :=
  h.order.imp_of_mem fun ht _ hle =>
    Nat.lt_of_lt_of_le ((h.mem_iff _).1 ht).inText.start_lt_stop hle

/-- **A text has one list of sites that count.** -/
theorem Reported.eq {sites' : List Site} (h : Reported cs sites) (h' : Reported cs sites') :
    sites = sites' := by
  have : Std.Irrefl fun t u : Site => t.start < u.start := ⟨fun t => Nat.lt_irrefl t.start⟩
  have : Std.Antisymm fun t u : Site => t.start < u.start :=
    ⟨fun t u hlt hgt => absurd hgt (Nat.lt_asymm hlt)⟩
  exact h.pairwise_start.eq_of_mem_iff h'.pairwise_start (h.mem_iff_mem h')

end LuaBundle.Lua
