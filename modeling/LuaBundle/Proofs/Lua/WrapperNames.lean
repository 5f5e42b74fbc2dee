import LuaBundle.Bundle
import LuaBundle.Settings.Reading
import Mathlib.Data.List.Basic

/-!
# Names of wrappers

The name of a wrapper is the prefix that the settings give and then the identifier of an import
name.  `Settings.validate` looks at the prefix, and `identifierOf` at the import name; nobody looks
at what the two spell together.

* `isIdentifier_iff` — the prefix is spelled like a name;
* `isNameChar_of_mem_identifierOf` — an identifier can stand behind it;
* `exists_identifierOf_eq` — but every end of a reserved word is the identifier of some import name;
* `wrapper_names_of_validate` — so a wrapper has a name of the language unless it is called like a
  reserved word, which happens exactly for the prefixes that reserved words start with.
-/

set_option autoImplicit false

namespace LuaBundle.Lua

/-- The words that the language keeps for itself. -/
def reservedWords : List String :=
  ["and", "break", "do", "else", "elseif", "end", "false", "for", "function", "goto", "if", "in",
    "local", "nil", "not", "or", "repeat", "return", "then", "true", "until", "while"]

/-- A text is spelled like a name: a letter or an underscore, and then letters, digits and
underscores.  Only the letters of ASCII count. -/
def IsSpelledAsName (s : String) : Prop :=
  ∃ first rest, s.toList = first :: rest ∧ (first.isAlpha ∨ first = '_') ∧
    ∀ c ∈ rest, c.isAlpha ∨ c.isDigit ∨ c = '_'

/-- A name of the language. -/
structure IsName (s : String) : Prop where
  isSpelledAsName : IsSpelledAsName s
  not_reserved : s ∉ reservedWords

theorem isNameChar_iff {c : Char} : isNameChar c ↔ c.isAlpha ∨ c.isDigit ∨ c = '_' := by
  simp [isNameChar, Char.isAlphanum, or_assoc]

theorem isIdentifier_iff {s : String} : isIdentifier s ↔ IsSpelledAsName s := by
  unfold isIdentifier IsSpelledAsName
  split
  · next hnil => simp [hnil]
  · next first rest hs => simp [hs, isNameChar_iff]

theorem isIdentifier_of_validate {settings valid : Settings} (h : settings.validate = .ok valid) :
    isIdentifier settings.bundle.functionPrefix := by
  unfold Settings.validate at h
  split at h
  · simp at h
  split at h
  · simp at h
  split at h
  · simp at h
  · next hprefix => simpa using hprefix

theorem IsSpelledAsName.append {s t : String} (h : IsSpelledAsName s)
    (ht : ∀ c ∈ t.toList, isNameChar c) : IsSpelledAsName (s ++ t) := by
  obtain ⟨first, rest, hs, hfirst, hrest⟩ := h
  refine ⟨first, rest ++ t.toList, by rw [String.toList_append, hs, List.cons_append], hfirst, ?_⟩
  intro c hc
  rcases List.mem_append.1 hc with hc | hc
  · exact hrest c hc
  · exact isNameChar_iff.1 (ht c hc)

/-! ## Identifiers -/

theorem isNameChar_of_mem_underscored {cs : List Char} : ∀ c ∈ underscored cs, isNameChar c := by
  intro c hc
  obtain ⟨d, -, rfl⟩ := List.mem_map.1 hc
  split
  · next hd => exact hd
  · rfl

theorem isNameChar_of_mem_identifierOf {name : String} :
    ∀ c ∈ (identifierOf name).toList, isNameChar c := by
  unfold identifierOf
  split
  · next rest hrest =>
    rw [String.toList_ofList]
    exact fun c hc => isNameChar_of_mem_underscored c (hrest ▸ List.mem_cons_of_mem _ hc)
  · rw [String.toList_ofList]
    exact isNameChar_of_mem_underscored

/-- One underscore is taken off the start of a name, and what can stand in a name stays. -/
theorem identifierOf_underscore {cs : List Char} (h : ∀ c ∈ cs, isNameChar c) :
    identifierOf (String.ofList ('_' :: cs)) = String.ofList cs := by
  have hsame : underscored cs = cs :=
    (List.map_congr_left fun c hc => if_pos (h c hc)).trans (List.map_id cs)
  have hstart : underscored ('_' :: cs) = '_' :: underscored cs := rfl
  unfold identifierOf
  rw [String.toList_ofList, hstart, hsame]
  rfl

/-! ## Wrappers -/

theorem isNameChar_of_mem_reservedWords {word : String} (h : word ∈ reservedWords) :
    ∀ c ∈ word.toList, isNameChar c := by
  have hall : reservedWords.all (·.toList.all isNameChar) := by decide +kernel
  exact List.all_eq_true.1 (List.all_eq_true.1 hall word h)

/-- What a reserved word has behind a prefix is the identifier of an import name. -/
theorem exists_identifierOf_eq {front word : String} (hword : word ∈ reservedWords)
    (h : front.toList <+: word.toList) : ∃ name, name ≠ "" ∧ front ++ identifierOf name = word := by
  obtain ⟨rest, hrest⟩ := h
  have hname : ∀ c ∈ rest, isNameChar c := fun c hc =>
    isNameChar_of_mem_reservedWords hword c (hrest ▸ List.mem_append_right _ hc)
  refine ⟨String.ofList ('_' :: rest), by simp [← String.toList_inj], ?_⟩
  rw [identifierOf_underscore hname, ← String.toList_inj, String.toList_append,
    String.toList_ofList, hrest]

/-- **What wrappers are called.**  With settings that are not refused, every wrapper has a name that
is spelled like one, and it is a name of the language unless it is a reserved word.  Import names
that make it a reserved word exist for the prefixes that the word starts with, and for no others. -/
theorem wrapper_names_of_validate {settings valid : Settings}
    (h : settings.validate = .ok valid) :
    let wrapper (name : String) := settings.bundle.functionPrefix ++ identifierOf name
    (∀ name, IsSpelledAsName (wrapper name)) ∧
    (∀ name, IsName (wrapper name) ↔ wrapper name ∉ reservedWords) ∧
    ∀ word ∈ reservedWords, ((∃ name, name ≠ "" ∧ wrapper name = word) ↔
      settings.bundle.functionPrefix.toList <+: word.toList) := by
  intro wrapper
  have hspelled : ∀ name, IsSpelledAsName (wrapper name) := fun name =>
    (isIdentifier_iff.1 (isIdentifier_of_validate h)).append isNameChar_of_mem_identifierOf
  refine ⟨hspelled, fun name => ⟨IsName.not_reserved, IsName.mk (hspelled name)⟩, ?_⟩
  refine fun word hword => ⟨?_, exists_identifierOf_eq hword⟩
  rintro ⟨name, -, rfl⟩
  exact ⟨_, String.toList_append.symm⟩

/-- The default prefix starts with an underscore, as no reserved word does. -/
theorem wrapper_names_of_validate_default :
    ({} : Settings).validate = .ok {} ∧
      ∀ name, name ≠ "" → IsName ("_loaded_mod_" ++ identifierOf name) := by
  have hvalid : ({} : Settings).validate = .ok {} := by decide +kernel
  obtain ⟨-, hname, hword⟩ := wrapper_names_of_validate hvalid
  refine ⟨hvalid, fun name hne => (hname name).2 fun hmem => ?_⟩
  have hnone : ∀ word ∈ reservedWords,
      ¬ ({} : Settings).bundle.functionPrefix.toList <+: word.toList := by decide +kernel
  exact hnone _ hmem ((hword _ hmem).1 ⟨name, hne, rfl⟩)

/-- **A wrapper can be called `end`.**  The prefix is not refused, and an import name that consists
of a hyphen adds nothing to it. -/
theorem wrapper_named_end :
    let settings : Settings := { bundle := { functionPrefix := "end" } }
    settings.validate = .ok settings ∧
      settings.bundle.functionPrefix ++ identifierOf "-" = "end" ∧ ¬ IsName "end" ∧
      (Statement.define "-" (identifierOf "-") "return 1").text settings.bundle =
        "-- module: \"-\"\nlocal function end()\nreturn 1\nend" := by
  intro settings
  refine ⟨by decide +kernel, by decide +kernel, fun h => h.not_reserved (by decide), ?_⟩
  decide +kernel

end LuaBundle.Lua
