import LuaBundle.Proofs.Lua.Continuation
import Mathlib.Data.List.Chain

/-!
# Calls and lines

A call may go over line breaks only where something stands before each break that lets it: a blank,
the parenthesis, the end of the keyword, or a backslash or the letter of `\z` in the literal.  So at
a line that ends otherwise a text falls into two, and each part has its own calls.

* `Continues` — what a line may end with if a call goes on behind it;
* `IsArgument.isChain` — before each line break in a call stands such a character;
* `Site.inText_shift_iff`, `commented_shift_iff`, `accepted_shift_iff` — sites behind a line break
  are judged by the text behind it;
* `Reported.append_newline` — the sites of the two parts are the sites of the text;
* `requireCalls_append_newline` — and so are the calls, those of the second part further down.
-/

set_option autoImplicit false

namespace LuaBundle.Lua

/-! ## Line breaks in a call -/

/-- A call may go on behind a line that ends with this. -/
def Continues (c : Char) : Prop :=
  isBlank c ∨ c = '(' ∨ c = '\\' ∨ c = 'z' ∨ c = 'e'
  deriving Decidable

/-- Two characters may stand side by side in a call. -/
def Joins (c d : Char) : Prop :=
  d = '\n' → Continues c

theorem Joins.of_ne {c d : Char} (h : d ≠ '\n') : Joins c d :=
  fun hd => absurd hd h

theorem Joins.of_continues {c d : Char} (h : Continues c) : Joins c d :=
  fun _ => h

theorem isChain_of_continues {cs : List Char} (h : ∀ c ∈ cs, Continues c) : cs.IsChain Joins :=
  List.Pairwise.isChain (List.Pairwise.imp_of_mem (R := fun _ _ => True)
    (fun hc _ _ => .of_continues (h _ hc)) (List.pairwise_of_forall fun _ _ => trivial))

/-- A body starts with an escape or on its line. -/
theorem IsBody.ne_of_mem_head? {quote : Char} {body : List Char} (h : IsBody quote body) :
    ∀ c ∈ body.head?, c ≠ '\n' := by
  cases h with
  | nil => simp
  | char _ hn _ _ => exact fun c hc => Option.some.inj hc ▸ hn
  | skip _ _ _ | escape _ _ => exact fun c hc => Option.some.inj hc ▸ by decide

theorem IsBody.isChain {quote : Char} {body : List Char} (h : IsBody quote body) :
    body.IsChain Joins := by
  induction h with
  | nil => exact .nil
  | char _ _ _ h ih =>
    exact List.isChain_cons.2 ⟨fun d hd => .of_ne (h.ne_of_mem_head? d hd), ih⟩
  | @skip blanks body hb _ h ih =>
    refine List.isChain_cons_cons.2 ⟨.of_ne (by decide), List.isChain_cons.2
      ⟨fun _ _ => .of_continues (by decide), List.isChain_append.2 ⟨?_, ih, ?_⟩⟩⟩
    · exact isChain_of_continues fun c hc => .inl (hb c hc)
    · exact fun _ _ d hd => .of_ne (h.ne_of_mem_head? d hd)
  | escape _ h ih =>
    exact List.isChain_cons_cons.2 ⟨.of_continues (by decide),
      List.isChain_cons.2 ⟨fun d hd => .of_ne (h.ne_of_mem_head? d hd), ih⟩⟩

theorem IsOpening.continues {opening : List Char} (h : IsOpening opening) :
    ∀ c ∈ opening, Continues c := by
  cases h with
  | blanks hb => exact fun c hc => .inl (hb c hc)
  | paren hb hi =>
    intro c hc
    rcases List.mem_append.1 hc with hc | hc
    · exact .inl (hb c hc)
    · rcases List.mem_cons.1 hc with rfl | hc
      · exact .inr (.inl rfl)
      · exact .inl (hi c hc)

/-- A literal with its quotes: neither of them is a line break. -/
theorem IsBody.isChain_quoted {quote : Char} {body : List Char} (hq : IsQuote quote)
    (h : IsBody quote body) : (quote :: (body ++ [quote])).IsChain Joins := by
  have hbreak : quote ≠ '\n' := hq.ne (by decide) (by decide)
  refine List.isChain_cons.2 ⟨fun c hc => .of_ne ?_, List.isChain_append.2
    ⟨h.isChain, List.isChain_singleton _, fun _ _ c hc => .of_ne (Option.some.inj hc ▸ hbreak)⟩⟩
  cases body with
  | nil => exact Option.some.inj hc ▸ hbreak
  | cons d body => exact h.ne_of_mem_head? c hc

/-- **Before each line break in a call stands a character that lets it go on.** -/
theorem IsArgument.isChain {name : String} {span : List Char} (h : IsArgument name span) :
    (keyword ++ span).IsChain Joins := by
  obtain ⟨opening, quote, body, hopening, hquote, hbody, -, -, rfl⟩ := h
  have hbreak : quote ≠ '\n' := hquote.ne (by decide) (by decide)
  have hspan : (opening ++ (quote :: (body ++ [quote]))).IsChain Joins :=
    List.isChain_append.2 ⟨isChain_of_continues hopening.continues, hbody.isChain_quoted hquote,
      fun _ _ c hc => .of_ne (Option.some.inj hc ▸ hbreak)⟩
  rw [List.append_assoc opening]
  -- the keyword ends with a letter that lets the call go on
  exact List.isChain_append.2 ⟨by simp [keyword, Joins], hspan,
    fun c hc _ _ => .of_continues (Option.some.inj hc ▸ by decide)⟩

variable {a b : List Char} {sites sitesA sitesB : List Site} {t u : Site} {k : Nat}

/-- A call ends before a line break or starts behind it, if nothing before the break lets it go on.
-/
theorem Site.InText.stop_le_or (h : t.InText (a ++ ['\n'] ++ b))
    (ha : ∀ c ∈ a.getLast?, ¬ Continues c) : t.stop ≤ a.length ∨ a.length < t.start := by
  by_contra hcross
  obtain ⟨before, span, after, hcs, hstart, hstop, harg, _⟩ := h
  rw [List.append_assoc before] at hcs
  generalize hcall : keyword ++ span = call at hcs
  have hlen : call.length = keyword.length + span.length := by rw [← hcall, List.length_append]
  -- the text before the break ends inside of the call
  obtain ⟨line, rfl⟩ : before <+: a :=
    List.prefix_of_prefix_length_le ⟨call ++ after, by rw [hcs, List.append_assoc]⟩
      ((List.prefix_append a _).trans (List.prefix_append _ b)) (by omega)
  rw [List.length_append] at hcross
  have hline : line ++ (['\n'] ++ b) = call ++ after := by
    simp only [List.append_assoc] at hcs
    exact List.append_cancel_left hcs
  obtain ⟨rest, hrest⟩ : line ++ ['\n'] <+: call :=
    List.prefix_of_prefix_length_le ⟨b, by rw [List.append_assoc]; exact hline⟩
      (List.prefix_append call after) (by rw [List.length_append, List.length_singleton]; omega)
  have hne : line ≠ [] := by
    rintro rfl
    rw [← hcall] at hrest
    exact absurd (List.cons.inj hrest).1 (by decide)
  have hchain := harg.isChain
  rw [hcall, ← hrest, List.append_assoc, List.isChain_append] at hchain
  have hlast : line.getLast? = some (line.getLast hne) := List.getLast?_eq_some_getLast hne
  refine ha (line.getLast hne) ?_ (hchain.2.2 _ hlast '\n' rfl rfl)
  rw [List.getLast?_append_of_ne_nil _ hne]
  exact hlast

/-! ## Sites further down -/

namespace Site

/-- A site, some characters further down. -/
def shift (n : Nat) (t : Site) : Site where
  start := n + t.start
  stop := n + t.stop
  name := t.name

theorem exists_shift_eq {n : Nat} (hstart : n ≤ t.start) (hstop : n ≤ t.stop) :
    ∃ u : Site, u.shift n = t :=
  ⟨⟨t.start - n, t.stop - n, t.name⟩, by
    rw [shift]
    congr 1
    · exact Nat.add_sub_cancel' hstart
    · exact Nat.add_sub_cancel' hstop⟩

theorem shift_covers_iff {n i : Nat} : (t.shift n).Covers (n + i) ↔ t.Covers i := by
  simp only [Covers, shift, Nat.add_le_add_iff_left, Nat.add_lt_add_iff_left]

/-- What is written behind a line break does not depend on the text before it. -/
theorem inText_shift_iff :
    (t.shift (a ++ ['\n']).length).InText (a ++ ['\n'] ++ b) ↔ t.InText b := by
  -- a line break is no letter, so a whole word may start behind it
  have hlast (before : List Char) : (∀ c ∈ (a ++ ['\n'] ++ before).getLast?, ¬ isNameChar c) ↔
      ∀ c ∈ before.getLast?, ¬ isNameChar c := by
    cases before with
    | nil => simp [isNameChar]
    | cons c before => rw [List.getLast?_append_of_ne_nil _ (List.cons_ne_nil _ _)]
  constructor
  · rintro ⟨before, span, after, hcs, hstart, hstop, harg, hbefore, hafter⟩
    have hfront : a ++ ['\n'] <+: before :=
      List.prefix_of_prefix_length_le (List.prefix_append _ b)
        ⟨keyword ++ span ++ after, by rw [hcs]; simp only [List.append_assoc]⟩
        (hstart ▸ Nat.le_add_right _ _)
    obtain ⟨before, rfl⟩ := hfront
    refine ⟨before, span, after, ?_, ?_, ?_, harg, (hlast before).1 hbefore, hafter⟩
    · simp only [List.append_assoc] at hcs ⊢
      exact List.append_cancel_left (List.append_cancel_left hcs)
    · exact Nat.add_left_cancel (hstart.trans List.length_append)
    · simp only [shift, Nat.add_assoc] at hstop ⊢
      exact Nat.add_left_cancel hstop
  · rintro ⟨before, span, after, rfl, hstart, hstop, harg, hbefore, hafter⟩
    refine ⟨a ++ ['\n'] ++ before, span, after, ?_, ?_, ?_, harg, (hlast before).2 hbefore, hafter⟩
    · simp only [List.append_assoc]
    · exact (congrArg _ hstart).trans List.length_append.symm
    · simp only [shift, hstop, Nat.add_assoc]

end Site

/-- The text behind a line break starts a new line, so no comment reaches it. -/
theorem commented_shift_iff (hA : ∀ t ∈ sitesA, t.stop ≤ a.length) :
    Commented (a ++ ['\n'] ++ b) (sitesA ++ sitesB.map (Site.shift (a ++ ['\n']).length))
      ((a ++ ['\n']).length + k) ↔ Commented b sitesB k := by
  have hn : (a ++ ['\n']).length = a.length + 1 := List.length_append
  have hbreak : (a ++ ['\n'] ++ b)[a.length]? = some '\n' := by simp
  have hget (i : Nat) : (a ++ ['\n'] ++ b)[(a ++ ['\n']).length + i]? = b[i]? := by
    rw [List.getElem?_append_right (Nat.le_add_right _ _), Nat.add_sub_cancel_left]
  generalize a ++ ['\n'] ++ b = cs at hbreak hget ⊢
  generalize (a ++ ['\n']).length = n at hn hget ⊢
  constructor
  · rintro ⟨i, hi, hh, hh', hline, hout⟩
    have hge : n ≤ i := by
      by_contra hlt
      exact hline a.length (by omega) (by omega) hbreak
    obtain ⟨j, rfl⟩ := Nat.exists_eq_add_of_le hge
    refine ⟨j, Nat.lt_of_add_lt_add_left hi, hget j ▸ hh, hget (j + 1) ▸ hh', fun l hl hlt => ?_,
      fun u hu hcov => ?_⟩
    · exact hget l ▸ hline (n + l) (Nat.add_le_add_left hl n) (Nat.add_lt_add_left hlt n)
    · exact hout (u.shift n) (List.mem_append_right _ (List.mem_map_of_mem hu))
        (Site.shift_covers_iff.2 hcov)
  · rintro ⟨i, hi, hh, hh', hline, hout⟩
    refine ⟨n + i, Nat.add_lt_add_left hi n, (hget i).trans hh, (hget (i + 1)).trans hh',
      fun l hl hlt => ?_, fun t ht hcov => ?_⟩
    · obtain ⟨m, rfl⟩ := Nat.exists_eq_add_of_le (Nat.le_trans (Nat.le_add_right n i) hl)
      rw [hget]
      exact hline m (Nat.le_of_add_le_add_left hl) (Nat.lt_of_add_lt_add_left hlt)
    · rcases List.mem_append.1 ht with ht | ht
      · have hstop := hA t ht
        have hcov := hcov.2
        omega
      · obtain ⟨u, hu, rfl⟩ := List.mem_map.1 ht
        exact hout u hu (Site.shift_covers_iff.1 hcov)

/-- **A site behind a line break counts if it counts in the text behind it.** -/
theorem accepted_shift_iff (hA : ∀ t ∈ sitesA, t.stop ≤ a.length) :
    Accepted (a ++ ['\n'] ++ b) (sitesA ++ sitesB.map (Site.shift (a ++ ['\n']).length))
      (u.shift (a ++ ['\n']).length) ↔ Accepted b sitesB u := by
  have hcom : Commented _ _ (u.shift _).start ↔ Commented b sitesB u.start :=
    commented_shift_iff hA
  constructor
  · rintro ⟨hin, hout, hno⟩
    refine ⟨Site.inText_shift_iff.1 hin, fun t ht hlt => ?_, fun h => hno (hcom.2 h)⟩
    have hstop := hout _ (List.mem_append_right _ (List.mem_map_of_mem ht))
      (Nat.add_lt_add_left hlt _)
    exact Nat.le_of_add_le_add_left hstop
  · rintro ⟨hin, hout, hno⟩
    refine ⟨Site.inText_shift_iff.2 hin, fun t ht hlt => ?_, fun h => hno (hcom.1 h)⟩
    rcases List.mem_append.1 ht with ht | ht
    · refine Nat.le_trans (hA t ht) (Nat.le_trans ?_ (Nat.le_add_right _ _))
      exact List.length_append ▸ Nat.le_add_right _ _
    · obtain ⟨v, hv, rfl⟩ := List.mem_map.1 ht
      exact Nat.add_le_add_left (hout v hv (Nat.lt_of_add_lt_add_left hlt)) _

/-! ## Two parts of a text -/

/-- **A text has the sites of its two parts**, if the line before the break is not continued. -/
theorem Reported.append_newline (hA : Reported a sitesA) (hB : Reported b sitesB)
    (ha : ∀ c ∈ a.getLast?, ¬ Continues c) :
    Reported (a ++ ['\n'] ++ b) (sitesA ++ sitesB.map (Site.shift (a ++ ['\n']).length)) := by
  have hstop : ∀ t ∈ sitesA, t.stop ≤ a.length := fun t ht =>
    ((hA.mem_iff t).1 ht).inText.stop_le_length
  have hlater : ∀ t ∈ sitesB.map (Site.shift (a ++ ['\n']).length), a.length < t.start := by
    intro t ht
    obtain ⟨u, _, rfl⟩ := List.mem_map.1 ht
    have hn : (a ++ ['\n']).length = a.length + 1 := List.length_append
    show a.length < (a ++ ['\n']).length + u.start
    omega
  -- a site of the first part counts beside the sites of both
  have hfirst {t : Site} (ht : t.stop ≤ a.length) (hstart : t.start ≤ a.length) :
      Accepted (a ++ ['\n'] ++ b) (sitesA ++ sitesB.map (Site.shift (a ++ ['\n']).length)) t ↔
        Accepted a sitesA t := by
    rw [accepted_append_iff fun u hu => Nat.le_trans hstart (Nat.le_of_lt (hlater u hu)),
      List.append_assoc, accepted_append_text_iff ht]
  refine ⟨?_, fun t => ⟨fun ht => ?_, fun hacc => ?_⟩⟩
  · refine List.pairwise_append.2 ⟨hA.order, ?_, fun t ht u hu => ?_⟩
    · exact hB.order.map _ fun t u hle => Nat.add_le_add_left hle _
    · exact Nat.le_trans (hstop t ht) (Nat.le_of_lt (hlater u hu))
  · rcases List.mem_append.1 ht with ht | ht
    · have hacc := (hA.mem_iff t).1 ht
      exact (hfirst (hstop t ht) (Nat.le_trans hacc.inText.start_lt_stop.le (hstop t ht))).2 hacc
    · obtain ⟨u, hu, rfl⟩ := List.mem_map.1 ht
      exact (accepted_shift_iff hstop).2 ((hB.mem_iff u).1 hu)
  · have hlt := hacc.inText.start_lt_stop
    rcases hacc.inText.stop_le_or ha with hle | hgt
    · exact List.mem_append_left _ ((hA.mem_iff t).2 ((hfirst hle (by omega)).1 hacc))
    · have hn : (a ++ ['\n']).length = a.length + 1 := List.length_append
      obtain ⟨u, rfl⟩ := Site.exists_shift_eq (n := (a ++ ['\n']).length) (t := t)
        (by omega) (by omega)
      exact List.mem_append_right _
        (List.mem_map_of_mem ((hB.mem_iff u).2 ((accepted_shift_iff hstop).1 hacc)))

/-- A call, some lines further down. -/
def RequireCall.down (n : Nat) (call : RequireCall) : RequireCall :=
  { call with line := call.line + n }

theorem Site.call_shift (a b : List Char) (t : Site) :
    (t.shift (a ++ ['\n']).length).call (a ++ ['\n'] ++ b) =
      (t.call b).down (1 + a.count '\n') := by
  have htake : (a ++ ['\n'] ++ b).take ((a ++ ['\n']).length + t.start) =
      a ++ ['\n'] ++ b.take t.start := by
    rw [List.take_append, Nat.add_sub_cancel_left, List.take_of_length_le (Nat.le_add_right _ _)]
  rw [Site.call, Site.call, RequireCall.down, RequireCall.mk.injEq]
  refine ⟨rfl, ?_⟩
  rw [shift, htake, List.count_append, List.count_append, List.count_singleton_self]
  dsimp only
  omega

/-- **Calls are found line by line.**  At a line break that no call goes over, because nothing that
would let it stands before, a text falls into two parts: its calls are those of the first part, and
then those of the second part, as far down as the first part is long.  So whatever a line holds
that is left open, a comment, a literal, a parenthesis before a name, part of a keyword, it neither
hides calls on later lines nor makes any. -/
theorem requireCalls_append_newline (a b : String)
    (ha : ∀ c ∈ a.toList.getLast?, ¬ Continues c) :
    requireCalls (a ++ "\n" ++ b) =
      requireCalls a ++ (requireCalls b).map (·.down (1 + a.toList.count '\n')) := by
  have htext : (a ++ "\n" ++ b).toList = a.toList ++ ['\n'] ++ b.toList := by
    rw [String.toList_append, String.toList_append]
    rfl
  obtain ⟨sitesA, hA, -, hcallsA⟩ := requireCalls_eq_sites a
  obtain ⟨sitesB, hB, -, hcallsB⟩ := requireCalls_eq_sites b
  obtain ⟨sites, -, hunique, hcalls⟩ := requireCalls_eq_sites (a ++ "\n" ++ b)
  rw [htext] at hunique hcalls
  rw [hcalls, ← hunique _ (hA.append_newline hB ha), List.map_append, List.map_map, hcallsA,
    hcallsB, List.map_map]
  congr 1
  · refine List.map_congr_left fun t ht => ?_
    have hin := ((hA.mem_iff t).1 ht).inText
    rw [List.append_assoc, Site.call_append (Nat.le_trans hin.start_lt_stop.le hin.stop_le_length)]
  · exact List.map_congr_left fun t _ => Site.call_shift _ _ t

/-- A literal that does not end, behind a comment. -/
theorem requireCalls_append_newline_unfinished :
    let a := "require 'x' -- require(\nrequire(\"lib"
    (∀ c ∈ a.toList.getLast?, ¬ Continues c) ∧
      requireCalls (a ++ "\n" ++ "require 'y'") = [⟨"x", 1⟩, ⟨"y", 3⟩] := by
  intro a
  have hlast : a.toList.getLast? = some 'b' := by decide +kernel
  have ha : ∀ c ∈ a.toList.getLast?, ¬ Continues c := by
    rintro c hc
    obtain rfl := Option.some.inj (hlast.symm.trans hc)
    decide
  exact ⟨ha, (requireCalls_append_newline a "require 'y'" ha).trans (by decide +kernel)⟩

/-- A keyword at the end of a line does find its argument on the next one. -/
example : requireCalls ("require" ++ "\n" ++ "'y'") = [⟨"y", 1⟩] ∧
    requireCalls "require" = [] ∧ requireCalls "'y'" = [] := by
  decide +kernel

end LuaBundle.Lua
