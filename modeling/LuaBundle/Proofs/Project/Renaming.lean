import LuaBundle.Proofs.FileSystem.Relocation
import LuaBundle.Proofs.Project.Reads
import LuaBundle.Proofs.RequireGraph.Renaming

/-!
# Renamed walks

A walk compares places and reads files.  Where the same is read under other names, it goes the same
way under those names, for all that it does not report.

* `Scope.IsRenamed` — import names lead to renamed paths, at which the same is read;
* `Walk.IsRenamed` and `Visits.exists_renamed` — a walk beside another one, step by step;
* `Project.toOption_resolve_renamed` — so the projects are the same under other names.
-/

set_option autoImplicit false

namespace LuaBundle

variable {f : Path → Path} {P : Path → Prop}

theorem SameRead.toOption_load {files files' : FileSystem} {p p' : Path}
    (h : SameRead (files.read p) (files'.read p')) :
    (Walk.load files' p').toOption = (Walk.load files p).toOption := by
  unfold SameRead at h
  unfold Walk.load
  split at h
  · next hr hr' => rw [hr, hr', h]
  · next e e' hr hr' =>
    have hmissing : e'.isMissing = e.isMissing := by
      rw [FileError.isMissing, FileError.isMissing, h]
    rw [hr, hr']
    dsimp only
    rw [hmissing]
    split <;> rfl
  · exact h.elim

/-! ## Scopes -/

/-- A scope that finds the same files under other names. -/
structure Scope.IsRenamed (f : Path → Path) (P : Path → Prop) (s s' : Scope) : Prop where
  isRenaming : Path.IsRenaming f P
  target_in (name : String) : P (s.target name)
  target (name : String) : s'.target name = f (s.target name)
  read {p : Path} (hp : P p) : SameRead (s.files.read p) (s'.files.read (f p))

theorem map_addToGroup (hf : Path.IsRenaming f P) {p : Path} (hp : P p) (name : String)
    {groups : List (Path × List String)} (hg : ∀ group ∈ groups, P group.1) :
    addToGroup (f p) name (groups.map (Prod.map f id)) =
      (addToGroup p name groups).map (Prod.map f id) := by
  induction groups with
  | nil => rfl
  | cons group groups ih =>
    obtain ⟨hgroup, hg⟩ := List.forall_mem_cons.1 hg
    rw [List.map_cons, Prod.map, addToGroup, addToGroup, ih hg]
    by_cases he : group.1 ≈ p
    · rw [if_pos he, if_pos ((hf.equiv_iff hgroup hp).2 he)]
      rfl
    · rw [if_neg he, if_neg fun h => he ((hf.equiv_iff hgroup hp).1 h)]
      rfl

namespace Scope.IsRenamed

variable {s s' : Scope} {p : Path}

theorem children (h : IsRenamed f P s s') (text : String) :
    s'.children text = (s.children text).map (Prod.map f id) := by
  have hgroups : ∀ (calls : List Lua.RequireCall) (groups : List (Path × List String)),
      (∀ group ∈ groups, P group.1) →
      s'.groupCalls (groups.map (Prod.map f id)) calls =
        (s.groupCalls groups calls).map (Prod.map f id) := by
    intro calls
    induction calls with
    | nil => exact fun _ _ => rfl
    | cons call calls ih =>
      intro groups hg
      have hnext : ∀ group ∈ addToGroup (s.target call.name) call.name groups, P group.1 := by
        intro group hm
        rcases fst_mem_of_mem_addToGroup (List.mem_map_of_mem hm) with he | he
        · exact he ▸ h.target_in call.name
        · obtain ⟨g, hg', he⟩ := List.mem_map.1 he
          exact he ▸ hg g hg'
      rw [groupCalls, groupCalls, List.foldl_cons, List.foldl_cons, h.target,
        map_addToGroup h.isRenaming (h.target_in call.name) _ hg]
      exact ih _ hnext
  exact hgroups _ [] (by simp)

theorem pending (h : IsRenamed f P s s') (source? : Option String) :
    Walk.pending s' source? = (Walk.pending s source?).map (Prod.map id f) := by
  cases source? with
  | none => rfl
  | some text =>
    simp only [Walk.pending, Option.map_some, Option.getD_some, h.children, List.flatMap_map,
      List.map_flatMap, List.map_map]
    rfl

theorem pending_in (h : IsRenamed f P s s') {source? : Option String} {v : String × Path}
    (hv : v ∈ Walk.pending s source?) : P v.2 := by
  cases source? with
  | none => simp [Walk.pending] at hv
  | some text =>
    obtain ⟨call, _, rfl⟩ := Walk.mem_pending.1 hv
    exact h.target_in call.name

theorem requires (h : IsRenamed f P s s') (source? : Option String) :
    ((source?.map s'.children).getD []).map (·.1) =
      (((source?.map s.children).getD []).map (·.1)).map f := by
  cases source? with
  | none => rfl
  | some text =>
    simp only [Option.map_some, Option.getD_some, h.children, List.map_map]
    rfl

theorem requires_in (h : IsRenamed f P s s') {source? : Option String} {q : Path}
    (hq : q ∈ ((source?.map s.children).getD []).map (·.1)) : P q := by
  cases source? with
  | none => simp at hq
  | some text =>
    obtain ⟨group, hgroup, rfl⟩ := List.mem_map.1 hq
    obtain ⟨call, _, htarget⟩ := Scope.exists_call_of_mem_children hgroup
    exact htarget ▸ h.target_in call.name

theorem load_ok (h : IsRenamed f P s s') (hp : P p) {source? : Option String}
    (hl : Walk.load s.files p = .ok source?) : Walk.load s'.files (f p) = .ok source? := by
  rw [← toOption_eq_some_iff, (h.read hp).toOption_load, toOption_eq_some_iff, hl]

theorem load_error (h : IsRenamed f P s s') (hp : P p) {e : ReadFailure}
    (hl : Walk.load s.files p = .error e) : ∃ e', Walk.load s'.files (f p) = .error e' := by
  have hnone := (h.read hp).toOption_load
  rw [hl] at hnone
  cases hl' : Walk.load s'.files (f p) with
  | error e' => exact ⟨e', rfl⟩
  | ok source? => simp [hl', Except.toOption] at hnone

end Scope.IsRenamed

/-! ## Walks -/

namespace Walk

/-- A walk beside another one that found the same under other names. -/
structure IsRenamed (f : Path → Path) (P : Path → Prop) (w v : Walk) : Prop where
  entered : v.entered = w.entered.map f
  found : v.found = w.found.map (Module.rename f)
  finished : v.finished = w.finished.map f
  entered_in : ∀ p ∈ w.entered, P p
  found_in : ∀ m ∈ w.found, m.PathsIn P
  finished_in : ∀ p ∈ w.finished, P p

namespace IsRenamed

variable {s s' : Scope} {w v : Walk} {p : Path}

theorem empty (f : Path → Path) (P : Path → Prop) : IsRenamed f P {} {} :=
  ⟨rfl, rfl, rfl, nofun, nofun, nofun⟩

theorem hasEntered_iff (h : IsRenamed f P w v) (hf : Path.IsRenaming f P) (hp : P p) :
    v.hasEntered (f p) ↔ w.hasEntered p := by
  rw [Walk.hasEntered_iff, Walk.hasEntered_iff, h.entered]
  constructor
  · rintro ⟨_, hmap, he⟩
    obtain ⟨q, hq, rfl⟩ := List.mem_map.1 hmap
    exact ⟨q, hq, (hf.equiv_iff (h.entered_in q hq) hp).1 he⟩
  · rintro ⟨q, hq, he⟩
    exact ⟨f q, List.mem_map_of_mem hq, (hf.equiv_iff (h.entered_in q hq) hp).2 he⟩

theorem module? (h : IsRenamed f P w v) (hf : Path.IsRenaming f P) (hp : P p) :
    v.module? (f p) = (w.module? p).map (Module.rename f) := by
  rw [Walk.module?, Walk.module?, h.found, List.find?_map]
  exact congrArg _ (List.find?_congr fun m hm => hf.steps_beq (h.found_in m hm).1 hp)

theorem enter (h : IsRenamed f P w v) (hp : P p) : IsRenamed f P (w.enter p) (v.enter (f p)) where
  entered := by rw [entered_enter, entered_enter, h.entered, List.map_append, List.map_singleton]
  found := h.found
  finished := h.finished
  entered_in := List.forall_mem_append.2 ⟨h.entered_in, fun _ hq => List.mem_singleton.1 hq ▸ hp⟩
  found_in := h.found_in
  finished_in := h.finished_in

theorem finish (h : IsRenamed f P w v) (hp : P p) :
    IsRenamed f P (w.finish p) (v.finish (f p)) where
  entered := h.entered
  found := h.found
  finished := by
    rw [finished_finish, finished_finish, h.finished, List.map_append, List.map_singleton]
  entered_in := h.entered_in
  found_in := h.found_in
  finished_in := List.forall_mem_append.2 ⟨h.finished_in, fun _ hq => List.mem_singleton.1 hq ▸ hp⟩

theorem addModule (h : IsRenamed f P w v) (hs : Scope.IsRenamed f P s s') (hp : P p) (name : String)
    (source? : Option String) :
    IsRenamed f P (w.addModule s name p source?) (v.addModule s' name (f p) source?) where
  entered := h.entered
  found := by
    rw [found_addModule, found_addModule, h.found, List.map_append, List.map_singleton,
      hs.requires]
    rfl
  finished := h.finished
  entered_in := h.entered_in
  found_in := by
    refine List.forall_mem_append.2 ⟨h.found_in, fun m hm => ?_⟩
    rw [List.mem_singleton.1 hm]
    exact ⟨hp, fun q hq => hs.requires_in hq⟩
  finished_in := h.finished_in

theorem addName (h : IsRenamed f P w v) (hf : Path.IsRenaming f P) (hp : P p) (name : String) :
    IsRenamed f P (w.addName name p) (v.addName name (f p)) where
  entered := by rw [entered_addName, entered_addName, h.entered]
  found := by
    unfold Walk.addName
    rw [h.module? hf hp]
    cases w.module? p with
    | none => exact h.found
    | some m =>
      have hnames : (m.rename f).names = m.names := rfl
      dsimp only [Option.map_some]
      rw [hnames]
      split
      · exact h.found
      · dsimp only
        rw [h.found, List.map_map, List.map_map]
        refine List.map_congr_left fun n hn => ?_
        have hsame : (n.rename f).path ≈ f p ↔ n.path ≈ p := hf.equiv_iff (h.found_in n hn).1 hp
        by_cases he : n.path ≈ p
        · rw [Function.comp_apply, Function.comp_apply, if_pos he, if_pos (hsame.2 he)]
          rfl
        · rw [Function.comp_apply, Function.comp_apply, if_neg he, if_neg fun hy => he (hsame.1 hy)]
  finished := by rw [finished_addName, finished_addName, h.finished]
  entered_in := by rw [entered_addName]; exact h.entered_in
  found_in m hm := by
    obtain ⟨n, hn, rfl | ⟨_, rfl⟩⟩ := exists_of_mem_addName hm
    · exact h.found_in m hn
    · exact h.found_in n hn
  finished_in := by rw [finished_addName]; exact h.finished_in

end IsRenamed

/-- **Visits under other names.**  Where some visits make a walk of another, the visits of the
renamed paths do the same beside them, and both fail or neither does. -/
theorem Visits.exists_renamed {s s' : Scope} {visits : List (String × Path)} {w w₁ v : Walk}
    {failure? : Option ReadFailure} (hs : Scope.IsRenamed f P s s')
    (h : Visits s visits w w₁ failure?) (hvisits : ∀ x ∈ visits, P x.2)
    (hv : IsRenamed f P w v) :
    ∃ v₁ failure'?, Visits s' (visits.map (Prod.map id f)) v v₁ failure'? ∧
      IsRenamed f P w₁ v₁ ∧ failure'?.isSome = failure?.isSome := by
  -- on the visits: `IsRenamed` is kept by each step, and by it a path is new in both or in neither
  induction h generalizing v with
  | nil => exact ⟨v, none, .nil, hv, rfl⟩
  | again hp _ ih =>
    obtain ⟨hPp, hrest⟩ := List.forall_mem_cons.1 hvisits
    obtain ⟨v₁, failure'?, hvisit, hv₁, hsame⟩ := ih hrest (hv.addName hs.isRenaming hPp _)
    exact ⟨v₁, failure'?, .again ((hv.hasEntered_iff hs.isRenaming hPp).2 hp) hvisit, hv₁, hsame⟩
  | unreadable hp hl =>
    obtain ⟨hPp, _⟩ := List.forall_mem_cons.1 hvisits
    obtain ⟨e', hl'⟩ := hs.load_error hPp hl
    have hp' := fun he => hp ((hv.hasEntered_iff hs.isRenaming hPp).1 he)
    exact ⟨_, some e', .unreadable hp' hl', hv.enter hPp, rfl⟩
  | broken hp hl _ ih =>
    obtain ⟨hPp, _⟩ := List.forall_mem_cons.1 hvisits
    have hp' := fun he => hp ((hv.hasEntered_iff hs.isRenaming hPp).1 he)
    obtain ⟨v₁, failure'?, hvisit, hv₁, hsame⟩ :=
      ih (fun x hx => hs.pending_in hx) ((hv.enter hPp).addModule hs hPp _ _)
    obtain ⟨e', rfl⟩ := Option.isSome_iff_exists.1 hsame
    rw [← hs.pending] at hvisit
    exact ⟨v₁, some e', .broken hp' (hs.load_ok hPp hl) hvisit, hv₁, rfl⟩
  | finish hp hl _ _ ih ih' =>
    obtain ⟨hPp, hrest⟩ := List.forall_mem_cons.1 hvisits
    have hp' := fun he => hp ((hv.hasEntered_iff hs.isRenaming hPp).1 he)
    obtain ⟨v₁, failure'?, hvisit, hv₁, hsame⟩ :=
      ih (fun x hx => hs.pending_in hx) ((hv.enter hPp).addModule hs hPp _ _)
    obtain rfl := Option.not_isSome_iff_eq_none.1 (by rw [hsame]; simp)
    rw [← hs.pending] at hvisit
    obtain ⟨v₂, failure'?, hvisit', hv₂, hsame'⟩ := ih' hrest (hv₁.finish hPp)
    exact ⟨v₂, failure'?, .finish hp' (hs.load_ok hPp hl) hvisit hvisit', hv₂, hsame'⟩

end Walk

namespace Project

/-! ## Projects -/

/-- The same project at other paths. -/
def rename (f : Path → Path) (base' : Path) (p : Project) : Project where
  base := base'
  modules := p.modules.map (Module.rename f)
  skipped := p.skipped
  cycles := p.cycles.map (·.map f)

/-- All paths of a project are of one kind. -/
structure PathsIn (P : Path → Prop) (p : Project) : Prop where
  modules : ∀ m ∈ p.modules, m.PathsIn P
  cycles : ∀ c ∈ p.cycles, ∀ q ∈ c, P q

variable {w v : Walk}

/-- What was found, in the order in which it was finished. -/
theorem filterMap_module?_renamed (h : Walk.IsRenamed f P w v) (hf : Path.IsRenaming f P) :
    v.finished.filterMap v.module? =
      (w.finished.filterMap w.module?).map (Module.rename f) := by
  rw [h.finished, List.filterMap_map, List.map_filterMap]
  exact List.filterMap_congr fun p hp => h.module? hf (h.finished_in p hp)

theorem pathsIn_ofWalk (h : Walk.IsRenamed f P w v) (base : Path) : (ofWalk base w).PathsIn P := by
  have hms : ∀ m ∈ (ofWalk base w).modules, m.PathsIn P := by
    intro m hm
    obtain ⟨p, _, hmodule⟩ := List.mem_filterMap.1 (List.mem_filter.1 hm).1
    exact h.found_in m (List.mem_of_find?_eq_some hmodule)
  refine ⟨hms, ?_⟩
  rw [cycles_ofWalk]
  exact (RequireGraph.pathsIn_ofModules hms).cycles

/-- **The project of a renamed walk.** -/
theorem ofWalk_renamed (h : Walk.IsRenamed f P w v) (hf : Path.IsRenaming f P) (base base' : Path) :
    ofWalk base' v = (ofWalk base w).rename f base' := by
  have hlocal : (ofWalk base' v).modules = (ofWalk base w).modules.map (Module.rename f) := by
    simp only [ofWalk, filterMap_module?_renamed h hf, List.filter_map]
    rfl
  have hskipped : (ofWalk base' v).skipped = (ofWalk base w).skipped := by
    simp only [ofWalk, filterMap_module?_renamed h hf, List.filter_map, List.flatMap_map]
    rfl
  have hms := (pathsIn_ofWalk h base).modules
  have hcycles : (ofWalk base' v).cycles = (ofWalk base w).cycles.map (·.map f) := by
    rw [cycles_ofWalk, cycles_ofWalk, graph, graph, hlocal, RequireGraph.rename_ofModules hf hms,
      RequireGraph.rename_cycles hf (RequireGraph.pathsIn_ofModules hms)]
  rw [rename, ← hlocal, ← hskipped, ← hcycles]
  rfl

section Resolve

variable {files files' : FileSystem} {settings : Settings} {entry base' : Path}

/-- Walks from an entry under two names. -/
theorem walk_renamed {start : Path}
    (hs : Scope.IsRenamed f P (scope files settings start) (scope files' settings (f start)))
    (hstart : P start) (hstem : (f start).stem = start.stem) :
    Walk.IsRenamed f P (walk files settings start).1 (walk files' settings (f start)).1 ∧
      (walk files' settings (f start)).2.isSome = (walk files settings start).2.isSome := by
  obtain ⟨v, failure'?, hvisit, hv, hsame⟩ := (visits_walk files settings start).exists_renamed hs
    (fun x hx => List.mem_singleton.1 hx ▸ hstart) (.empty f P)
  have hvisit' := visits_walk files' settings (f start)
  rw [hstem] at hvisit'
  obtain ⟨rfl, rfl⟩ := hvisit.unique hvisit'
  exact ⟨hv, hsame⟩

/-- When a project is resolved, by the walk of the program. -/
theorem resolve_eq_ok_iff_walk {project : Project} :
    (resolve files settings entry).result = .ok project ↔
      files.has entry.normalize ∧ files.isFile entry.normalize ∧
        (walk files settings entry.normalize).2 = none ∧
        project = ofWalk (scope files settings entry.normalize).base
          (walk files settings entry.normalize).1 ∧
        (∃ m, project.entry? = some m ∧ m.path ≈ entry.normalize) ∧
        (settings.strictCycles → project.cycles = []) := by
  rw [resolve_eq_ok_iff]
  refine and_congr_right fun _ => and_congr_right fun _ => ⟨?_, ?_⟩
  · rintro ⟨w, hw, hproject⟩
    have hwalk : walk files settings entry.normalize = (w, none) := Walk.visits_iff.1 hw
    rw [hwalk]
    exact ⟨rfl, hproject⟩
  · rintro ⟨hnone, hproject⟩
    have hw := visits_walk files settings entry.normalize
    rw [hnone] at hw
    exact ⟨_, hw, hproject⟩

theorem entry?_rename (p : Project) :
    entry? (p.rename f base') = p.entry?.map (Module.rename f) :=
  List.getLast?_map

theorem cycles_rename_eq_nil_iff (p : Project) : (p.rename f base').cycles = [] ↔ p.cycles = [] :=
  List.map_eq_nil_iff

/-- A project ends with its entry under both names, or under none. -/
theorem exists_entry?_rename_iff (hf : Path.IsRenaming f P) {p : Project}
    (hp : ∀ m ∈ p.modules, m.PathsIn P) {start : Path} (hstart : P start) :
    (∃ m, entry? (p.rename f base') = some m ∧ m.path ≈ f start) ↔
      ∃ m, p.entry? = some m ∧ m.path ≈ start := by
  rw [entry?_rename]
  constructor
  · rintro ⟨_, hlast, he⟩
    obtain ⟨m, hm, rfl⟩ := Option.map_eq_some_iff.1 hlast
    exact ⟨m, hm, (hf.equiv_iff (hp m (List.mem_of_getLast? hm)).1 hstart).1 he⟩
  · rintro ⟨m, hm, he⟩
    refine ⟨m.rename f, by rw [hm]; rfl, ?_⟩
    exact (hf.equiv_iff (hp m (List.mem_of_getLast? hm)).1 hstart).2 he

section

variable (hs : Scope.IsRenamed f P (scope files settings entry) (scope files' settings (f entry)))
  (hP : P entry) (hstem : (f entry).stem = entry.stem)
include hs hP hstem

/-- **Projects of an entry under two names.**  Where the same is found under other names, the
project is resolved in both places or in none, and it is the same but for the names. -/
theorem toOption_resolve_renamed (hentry' : (f entry).Normal)
    (hhas : files'.has (f entry) = files.has entry)
    (hfile : files'.isFile (f entry) = files.isFile entry) :
    (resolve files' settings (f entry)).result.toOption =
      (resolve files settings entry).result.toOption.map
        (rename f (scope files' settings (f entry)).base) := by
  obtain ⟨hwalk, hfailure⟩ := walk_renamed hs hP hstem
  have hproject := ofWalk_renamed hwalk hs.isRenaming (scope files settings entry).base
    (scope files' settings (f entry)).base
  have hnone :
      (walk files' settings (f entry)).2 = none ↔ (walk files settings entry).2 = none := by
    rw [← Option.not_isSome_iff_eq_none, ← Option.not_isSome_iff_eq_none, hfailure]
  have hpaths := (pathsIn_ofWalk hwalk (scope files settings entry).base).modules
  -- what decides whether a project is resolved is the same under both names
  refine Option.ext fun project' => ?_
  simp only [Option.map_eq_some_iff, toOption_eq_some_iff, resolve_eq_ok_iff_walk,
    (hs.isRenaming.normal hP).normalize_eq, hentry'.normalize_eq, hproject, hhas, hfile, hnone]
  constructor
  · rintro ⟨h1, h2, h3, rfl, hlast, hstrict⟩
    rw [exists_entry?_rename_iff hs.isRenaming hpaths hP] at hlast
    exact ⟨_, ⟨h1, h2, h3, rfl, hlast, fun hyes =>
      (cycles_rename_eq_nil_iff _).1 (hstrict hyes)⟩, rfl⟩
  · rintro ⟨_, ⟨h1, h2, h3, rfl, hlast, hstrict⟩, rfl⟩
    rw [← exists_entry?_rename_iff hs.isRenaming hpaths hP] at hlast
    exact ⟨h1, h2, h3, rfl, hlast, fun hyes => (cycles_rename_eq_nil_iff _).2 (hstrict hyes)⟩

/-- The base and the paths of such a project. -/
theorem pathsIn_of_resolve {project : Project}
    (h : (resolve files settings entry).result = .ok project) :
    project.base = (scope files settings entry).base ∧ project.PathsIn P := by
  obtain ⟨_, _, _, rfl, _⟩ := resolve_eq_ok_iff_walk.1 h
  rw [(hs.isRenaming.normal hP).normalize_eq]
  exact ⟨rfl, pathsIn_ofWalk (walk_renamed hs hP hstem).1 _⟩

end

end Resolve

end Project

end LuaBundle
