/-!
# Cutting a text at separators

`segments sep cs` cuts a list of characters at every character on which `sep` holds.  The pieces
are all that lies between the separators, empty pieces included, so nothing is lost:

* `segments_ne_nil` — there is always a first piece, also in the empty text;
* `intercalate_segments` — joined again with the separator, the pieces give the text back;
* `not_mem_of_mem_segments` — no piece holds a separator.
-/

set_option autoImplicit false

namespace LuaBundle.Text

/-- The pieces of a text between its separators, in order. -/
def segments (sep : Char → Bool) : List Char → List (List Char)
  | [] => [[]]
  | c :: cs =>
    if sep c then
      [] :: segments sep cs
    else
      match segments sep cs with
      | [] => [[c]]
      | piece :: pieces => (c :: piece) :: pieces

theorem segments_ne_nil (sep : Char → Bool) (cs : List Char) : segments sep cs ≠ [] := by
  cases cs with
  | nil => simp [segments]
  | cons c cs =>
    simp only [segments]
    split
    · simp
    · split <;> simp

theorem segments_cons_of_neg {sep : Char → Bool} {c : Char} (h : sep c = false) {cs piece : List Char}
    {pieces : List (List Char)} (hs : segments sep cs = piece :: pieces) :
    segments sep (c :: cs) = (c :: piece) :: pieces := by
  simp [segments, h, hs]

/-- No piece holds a separator. -/
theorem not_mem_of_mem_segments {sep : Char → Bool} {cs piece : List Char}
    (h : piece ∈ segments sep cs) : ∀ c ∈ piece, sep c = false := by
  induction cs generalizing piece with
  | nil => simp [segments] at h; simp [h]
  | cons c cs ih =>
    by_cases hc : sep c = true
    · simp only [segments, hc, if_true, List.mem_cons] at h
      rcases h with rfl | h
      · simp
      · exact ih h
    · have hc' : sep c = false := by simpa using hc
      obtain ⟨first, rest, hs⟩ := List.exists_cons_of_ne_nil (segments_ne_nil sep cs)
      rw [segments_cons_of_neg hc' hs, List.mem_cons] at h
      rcases h with rfl | h
      · intro d hd
        rcases List.mem_cons.1 hd with rfl | hd
        · exact hc'
        · exact ih (hs ▸ List.mem_cons_self) d hd
      · exact ih (hs ▸ List.mem_cons_of_mem _ h)

/-- Joined again with the separator, the pieces give the text back. -/
theorem intercalate_segments (sep : Char) (cs : List Char) :
    [sep].intercalate (segments (· == sep) cs) = cs := by
  induction cs with
  | nil => simp [segments, List.intercalate]
  | cons c cs ih =>
    obtain ⟨first, rest, hs⟩ := List.exists_cons_of_ne_nil (segments_ne_nil (· == sep) cs)
    by_cases hc : c = sep
    · subst hc
      rw [hs] at ih
      simp only [segments, beq_self_eq_true, if_true, hs]
      simpa [List.intercalate] using ih
    · rw [segments_cons_of_neg (by simpa using hc) hs]
      rw [hs] at ih
      cases rest with
      | nil => simpa [List.intercalate] using ih
      | cons next rest => simpa [List.intercalate] using ih

end LuaBundle.Text
