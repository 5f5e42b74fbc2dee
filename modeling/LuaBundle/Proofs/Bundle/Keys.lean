import LuaBundle.Bundle
import LuaBundle.Proofs.Lua.Quote

/-!
# The keys of a bundle

A bundle stores the value of a module under a name that it writes as a literal, and a program looks
the name up by whatever its own literal denotes.  The two meet because a literal of the bundle
denotes the very name that it was written for.

* `cacheEntry_injective` — different names have different places in the cache;
* `not_isControl_of_mem_header` — the comment above a wrapper is one line, whatever the name;
* `key_reads_back` — what a name is written as, and what that is read as.
-/

set_option autoImplicit false

namespace LuaBundle

theorem Lua.quote_injective {name other : String} (h : Lua.quote name = Lua.quote other) :
    name = other := by
  have hlist := String.ofList_injective h
  have hbody := List.append_cancel_right (List.cons.inj hlist).2
  have hdecode := Lua.decode_flatMap_quoteChar other
  rw [← hbody, Lua.decode_flatMap_quoteChar] at hdecode
  exact Option.some.inj hdecode

/-- A literal holds no control character. -/
theorem Lua.not_isControl_of_mem_quote {name : String} {c : Char}
    (h : c ∈ (Lua.quote name).toList) : ¬ Lua.isControl c := by
  rw [Lua.quote, String.toList_ofList, List.mem_append, List.mem_cons, List.mem_singleton] at h
  rcases h with (rfl | h) | rfl
  · decide
  · obtain ⟨d, _, hd⟩ := List.mem_flatMap.1 h
    exact Lua.not_isControl_of_mem_quoteChar hd
  · decide

/-- **Different names have different places in the cache.** -/
theorem cacheEntry_injective {style : BundleStyle} {name other : String}
    (h : cacheEntry style name = cacheEntry style other) : name = other := by
  refine Lua.quote_injective (String.toList_injective ?_)
  have hlist := congrArg String.toList h
  simp only [cacheEntry, String.toList_append, List.append_assoc] at hlist
  exact List.append_cancel_right (List.append_cancel_left (List.append_cancel_left hlist))

/-- The comment above a wrapper has no line break but the one at its end. -/
theorem not_isControl_of_mem_header {style : BundleStyle} {name : String} {c : Char}
    (h : c ∈ (Statement.header style name).toList.dropLast) : ¬ Lua.isControl c := by
  unfold Statement.header at h
  split at h
  · rw [String.toList_append, String.toList_append, show "\n".toList = ['\n'] from rfl,
      List.dropLast_concat, List.mem_append] at h
    have hstart : "-- module: ".toList.all fun c => !Lua.isControl c := by decide
    rcases h with h | h
    · simpa using List.all_eq_true.1 hstart c h
    · exact Lua.not_isControl_of_mem_quote h
  · simp at h

/-- **A key is read back as the name that it was written for.**  A name is written as a literal in
double quotes without control characters.  It denotes the name, and a call with it is found with
that name; so different names have different keys, and no name breaks the line of the comment above
its wrapper. -/
theorem key_reads_back (name : String) :
    (∀ c ∈ (Lua.quote name).toList, ¬ Lua.isControl c) ∧
      (∃ body, Lua.quote name = String.ofList ('"' :: body ++ ['"']) ∧ Lua.IsBody '"' body ∧
        Lua.decode body = some name) ∧
      (name ≠ "" → Lua.requireCalls ("require(" ++ Lua.quote name ++ ")") = [⟨name, 1⟩]) ∧
      ∀ style : BundleStyle,
        (∀ other, cacheEntry style name = cacheEntry style other → name = other) ∧
          ∀ c ∈ (Statement.header style name).toList.dropLast, ¬ Lua.isControl c := by
  refine ⟨fun _ => Lua.not_isControl_of_mem_quote, ?_, Lua.requireCalls_quote, fun style => ?_⟩
  · exact ⟨_, rfl, Lua.isBody_flatMap_quoteChar _, Lua.decode_flatMap_quoteChar name⟩
  · exact ⟨fun _ => cacheEntry_injective, fun _ => not_isControl_of_mem_header⟩

/-- A control character before a digit, a quote and a backslash at the end. -/
theorem key_reads_back_control :
    "\x011\"\n\\" ≠ "" ∧ Lua.quote "\x011\"\n\\" = "\"\\0011\\\"\\n\\\\\"" ∧
      Lua.requireCalls "require(\"\\0011\\\"\\n\\\\\")" = [⟨"\x011\"\n\\", 1⟩] := by
  have hquote : Lua.quote "\x011\"\n\\" = "\"\\0011\\\"\\n\\\\\"" := by decide +kernel
  have hcalls := (key_reads_back "\x011\"\n\\").2.2.1 (by decide)
  rw [hquote] at hcalls
  exact ⟨by decide, hquote, hcalls⟩

end LuaBundle
