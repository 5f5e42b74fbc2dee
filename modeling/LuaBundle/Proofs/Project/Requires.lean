import LuaBundle.Project.Walk
import LuaBundle.Proofs.Path.Normal

/-!
# What a text requires

A walk sees the calls of a text through two filters: a name counts once, and names are grouped by
the path that they stand for.  Neither loses anything.

* `Walk.mem_pending` — the visits that follow from a text are its calls, each with its target;
* `Scope.map_fst_children` — the paths that a text requires are the targets of its calls, each at
  the place of its first call.
-/

set_option autoImplicit false

namespace LuaBundle

/-! ## Lists without repetition -/

section EraseDups

variable {α : Type} [BEq α] [LawfulBEq α]

theorem eraseDups_filter (p : α → Bool) (l : List α) :
    (l.filter p).eraseDups = l.eraseDups.filter p := by
  induction h : l.length using Nat.strongRecOn generalizing l with
  | _ n ih =>
    cases l with
    | nil => rfl
    | cons a l =>
      have hlt : (l.filter fun b => !b == a).length < n := by
        rw [← h, List.length_cons]
        exact Nat.lt_succ_of_le (List.length_filter_le _ _)
      rw [List.eraseDups_cons]
      by_cases ha : p a
      · have hcomm : (l.filter p).filter (fun b => !b == a)
            = (l.filter fun b => !b == a).filter p := by
          simp only [List.filter_filter, Bool.and_comm]
        rw [List.filter_cons_of_pos ha, List.filter_cons_of_pos ha, List.eraseDups_cons, hcomm,
          ih _ hlt _ rfl]
      · rw [List.filter_cons_of_neg ha, List.filter_cons_of_neg ha, ← ih _ hlt _ rfl,
          List.filter_filter]
        refine congrArg List.eraseDups (List.filter_congr fun b _ => ?_)
        by_cases hb : b = a
        · simp [hb, ha]
        · simp [hb]

end EraseDups

/-! ## First calls -/

theorem exists_mem_firstCalls {call : Lua.RequireCall} {calls : List Lua.RequireCall}
    (h : call ∈ calls) : ∃ first ∈ firstCalls calls, first.name = call.name := by
  induction calls with
  | nil => simp at h
  | cons c calls ih =>
    rw [firstCalls]
    rcases List.mem_cons.1 h with rfl | h
    · exact ⟨call, List.mem_cons_self, rfl⟩
    · obtain ⟨first, hf, hn⟩ := ih h
      by_cases hc : first.name = c.name
      · exact ⟨c, List.mem_cons_self, hc.symm.trans hn⟩
      · exact ⟨first, List.mem_cons_of_mem _ (List.mem_filter.2 ⟨hf, by simpa using hc⟩), hn⟩

/-- What depends on names only has the same values on the first calls as on all calls. -/
theorem eraseDups_map_firstCalls {β : Type} [BEq β] [LawfulBEq β] (f : String → β)
    (calls : List Lua.RequireCall) :
    ((firstCalls calls).map fun call => f call.name).eraseDups
      = (calls.map fun call => f call.name).eraseDups := by
  induction calls with
  | nil => rfl
  | cons c calls ih =>
    have habsorb :
        (((firstCalls calls).filter (·.name != c.name)).map fun call => f call.name).filter
            (fun b => !b == f c.name)
          = ((firstCalls calls).map fun call => f call.name).filter (fun b => !b == f c.name) := by
      rw [List.filter_map, List.filter_map, List.filter_filter]
      refine congrArg (List.map _) (List.filter_congr fun call _ => ?_)
      by_cases hn : call.name = c.name
      · simp [hn]
      · simp [hn]
    rw [firstCalls, List.map_cons, List.map_cons, List.eraseDups_cons, List.eraseDups_cons, habsorb,
      eraseDups_filter, eraseDups_filter, ih]

/-! ## Groups -/

/-- The names of some groups, each with its path. -/
def ungroup (groups : List (Path × List String)) : List (String × Path) :=
  groups.flatMap fun group => group.2.map (·, group.1)

/-- Adding to groups of normal paths: the path gets a group if it has none. -/
theorem map_fst_addToGroup {p : Path} (hp : p.Normal) (name : String)
    {groups : List (Path × List String)} (hg : ∀ group ∈ groups, group.1.Normal) :
    (addToGroup p name groups).map (·.1)
      = if p ∈ groups.map (·.1) then groups.map (·.1) else groups.map (·.1) ++ [p] := by
  induction groups with
  | nil => simp [addToGroup]
  | cons group groups ih =>
    have ih := ih fun g hm => hg g (List.mem_cons_of_mem _ hm)
    rw [addToGroup]
    by_cases he : group.1 = p
    · rw [if_pos (Path.equiv_of_eq he)]
      simp [he]
    · have hq : ¬ group.1 ≈ p := fun h => he ((hg group List.mem_cons_self).eq_of_equiv hp h)
      have hne : ¬ p = group.1 := fun h => he h.symm
      rw [if_neg hq, List.map_cons, List.map_cons, ih]
      simp only [List.mem_cons, hne, false_or]
      split <;> rfl

theorem mem_ungroup_addToGroup {p : Path} (hp : p.Normal) {name : String}
    {groups : List (Path × List String)} (hg : ∀ group ∈ groups, group.1.Normal)
    {v : String × Path} :
    v ∈ ungroup (addToGroup p name groups) ↔ v = (name, p) ∨ v ∈ ungroup groups := by
  induction groups with
  | nil => simp [addToGroup, ungroup]
  | cons group groups ih =>
    have ih := ih fun g hm => hg g (List.mem_cons_of_mem _ hm)
    simp only [ungroup] at ih
    rw [addToGroup]
    split
    · next hq =>
      have he : group.1 = p := (hg group List.mem_cons_self).eq_of_equiv hp hq
      simp only [ungroup, List.flatMap_cons, List.map_append, List.mem_append, List.map_cons,
        List.map_nil, List.mem_singleton, he]
      rw [or_right_comm, or_comm, or_left_comm]
    · simp only [ungroup, List.flatMap_cons, List.mem_append, ih]
      rw [or_left_comm]

namespace Scope

variable {s : Scope}

theorem normal_target (s : Scope) (name : String) : (s.target name).Normal :=
  Path.normal_importPath _ _ _

/-! ## The requires of a text -/

/-- The groups of some calls, added to given groups. -/
def groupCalls (s : Scope) (groups : List (Path × List String)) (calls : List Lua.RequireCall) :
    List (Path × List String) :=
  calls.foldl (fun groups call => addToGroup (s.target call.name) call.name groups) groups

theorem normal_addToGroup {p : Path} (hp : p.Normal) (name : String)
    {groups : List (Path × List String)} (hg : ∀ group ∈ groups, group.1.Normal) :
    ∀ group ∈ addToGroup p name groups, group.1.Normal := by
  intro group hm
  rcases fst_mem_of_mem_addToGroup (List.mem_map_of_mem hm) with h | h
  · rwa [h]
  · obtain ⟨g, hgm, he⟩ := List.mem_map.1 h
    exact he ▸ hg g hgm

theorem map_fst_groupCalls {calls : List Lua.RequireCall} {groups : List (Path × List String)}
    (hg : ∀ group ∈ groups, group.1.Normal) :
    (s.groupCalls groups calls).map (·.1) = groups.map (·.1)
      ++ ((calls.map fun call => s.target call.name).filter (· ∉ groups.map (·.1))).eraseDups := by
  induction calls generalizing groups with
  | nil => simp [groupCalls]
  | cons call calls ih =>
    have hp := s.normal_target call.name
    have ih := ih (normal_addToGroup hp call.name hg)
    rw [groupCalls, List.foldl_cons, ← groupCalls, ih, map_fst_addToGroup hp _ hg]
    split
    · next hm => rw [List.map_cons, List.filter_cons_of_neg (by simpa using hm)]
    · next hm =>
      rw [List.map_cons, List.filter_cons_of_pos (by simpa using hm), List.eraseDups_cons,
        List.append_assoc, List.filter_filter]
      refine congrArg (_ ++ s.target call.name :: ·) (congrArg List.eraseDups ?_)
      refine List.filter_congr fun q _ => ?_
      rw [Bool.eq_iff_iff]
      simp [not_or, and_comm]

theorem mem_ungroup_groupCalls {calls : List Lua.RequireCall} {groups : List (Path × List String)}
    (hg : ∀ group ∈ groups, group.1.Normal) {v : String × Path} :
    v ∈ ungroup (s.groupCalls groups calls)
      ↔ v ∈ ungroup groups ∨ ∃ call ∈ calls, v = (call.name, s.target call.name) := by
  induction calls generalizing groups with
  | nil => simp [groupCalls]
  | cons call calls ih =>
    have hp := s.normal_target call.name
    rw [groupCalls, List.foldl_cons, ← groupCalls, ih (normal_addToGroup hp call.name hg),
      mem_ungroup_addToGroup hp hg, or_right_comm, or_comm]
    simp only [List.mem_cons, exists_eq_or_imp]

/-- **The paths that a text requires** are the targets of its calls, each at the place of its first
call. -/
theorem map_fst_children (s : Scope) (text : String) :
    (s.children text).map (·.1)
      = ((Lua.requireCalls text).map fun call => s.target call.name).eraseDups := by
  rw [children, ← groupCalls, map_fst_groupCalls (by simp), ← eraseDups_map_firstCalls,
    List.filter_eq_self.2 (by simp)]
  rfl

end Scope

namespace Walk

variable {s : Scope}

/-- **The visits that follow from a text** are its calls, each with its target. -/
theorem mem_pending {text : String} {v : String × Path} :
    v ∈ pending s (some text)
      ↔ ∃ call ∈ Lua.requireCalls text, v = (call.name, s.target call.name) := by
  have hpending : pending s (some text)
      = ungroup (s.groupCalls [] (firstCalls (Lua.requireCalls text))) := rfl
  rw [hpending, Scope.mem_ungroup_groupCalls (by simp)]
  simp only [ungroup, List.flatMap_nil, List.not_mem_nil, false_or]
  constructor
  · rintro ⟨call, hc, rfl⟩
    exact ⟨call, mem_of_mem_firstCalls hc, rfl⟩
  · rintro ⟨call, hc, rfl⟩
    obtain ⟨first, hf, hn⟩ := exists_mem_firstCalls hc
    exact ⟨first, hf, by rw [hn]⟩

end Walk

end LuaBundle
