import LuaBundle.Proofs.Project.Discovery

/-!
# The names of a project

A walk records a name in one of two ways: the first name of a path makes a module, and each further
one is added to what was found there.  Neither way may lose a name or count one twice, and a path
may get a further name while the files that it requires are still being visited.

* `Visits.nodup_names` — nothing that is found has a name twice;
* `Visits.named_prefix` — what was found keeps its own name;
* `Complete.exists_call_of_mem_names` and `Complete.exists_of_call` — the recorded names are those
  that files call, and the name that the walk started with;
* `FromStart` — a walk with what it found at its start: all other names stand for the paths where
  they were recorded;
* `names_of_resolve` — what becomes of the names in a project.
-/

set_option autoImplicit false

namespace LuaBundle

namespace Walk

variable {s : Scope} {w w' : Walk} {visits : List (String × Path)} {failure? : Option ReadFailure}

/-! ## A name is recorded once -/

theorem Sound.nodup_names_addName (h : Sound s w) (hw : ∀ m ∈ w.found, m.names.Nodup)
    (name : String) (p : Path) : ∀ m ∈ (w.addName name p).found, m.names.Nodup := by
  unfold Walk.addName
  split
  · exact hw
  next m hm =>
  split
  · exact hw
  next hname =>
  obtain ⟨hm, hmp⟩ := h.module?_eq_some_iff.1 hm
  intro k hk
  obtain ⟨n, hn, rfl⟩ := List.mem_map.1 hk
  split
  · next hnp =>
    -- the name is new to the one module at the path
    obtain rfl := h.placedApart.eq_of_equiv hn hm (Setoid.trans hnp (Setoid.symm hmp))
    rw [Module.names, ← List.cons_append, List.nodup_append]
    refine ⟨hw n hn, List.nodup_singleton name, fun a ha b hb he => hname ?_⟩
    rw [← List.mem_singleton.1 hb, ← he]
    exact ha
  · exact hw n hn

/-- **Nothing that is found has a name twice.** -/
theorem Visits.nodup_names (h : Visits s visits w w' failure?) (hs : Sound s w)
    (hw : ∀ m ∈ w.found, m.names.Nodup) : ∀ m ∈ w'.found, m.names.Nodup := by
  have hboth : Sound s w' ∧ ∀ m ∈ w'.found, m.names.Nodup := by
    refine h.preserves (I := fun w => Sound s w ∧ ∀ m ∈ w.found, m.names.Nodup) ?_ ?_ ?_ ?_ ⟨hs, hw⟩
    · exact fun _ ⟨hs, hw⟩ => ⟨hs.addName _ _, hs.nodup_names_addName hw _ _⟩
    · exact fun hp ⟨hs, hw⟩ => ⟨hs.enter hp, hw⟩
    · intro w name p source? hp hl ⟨hs, hw⟩
      refine ⟨hs.addModule hp _ hl, fun m hm => ?_⟩
      rcases List.mem_append.1 hm with hm | hm
      · exact hw m hm
      · rw [List.mem_singleton.1 hm]
        exact List.nodup_singleton name
    · exact fun hp _ ⟨hs, _⟩ h ⟨hs₁, hw₁⟩ => ⟨h.sound_finish hs hp hs₁, hw₁⟩
  exact hboth.2

/-- The own names and the paths of what was found. -/
def named (w : Walk) : List (String × Path) :=
  w.found.map fun m => (m.name, m.path)

theorem named_addName (w : Walk) (name : String) (p : Path) :
    (w.addName name p).named = w.named := by
  unfold addName
  split
  · rfl
  · split
    · rfl
    · rw [named, named, List.map_map]
      refine List.map_congr_left fun m _ => ?_
      simp only [Function.comp_apply]
      split <;> rfl

theorem named_addModule (name : String) (p : Path) (source? : Option String) :
    ((w.enter p).addModule s name p source?).named = w.named ++ [(name, p)] := by
  rw [named, found_addModule, List.map_append]
  rfl

/-- **What was found keeps its own name.** -/
theorem Visits.named_prefix (h : Visits s visits w w' failure?) : w.named <+: w'.named := by
  induction h with
  | nil => exact List.prefix_rfl
  | @again name p rest w w' failure? _ _ ih => rwa [named_addName] at ih
  | unreadable => exact List.prefix_rfl
  | broken _ _ _ ih =>
    rw [named_addModule] at ih
    exact (List.prefix_append _ _).trans ih
  | finish _ _ _ _ ih ih' =>
    rw [named_addModule] at ih
    exact ((List.prefix_append _ _).trans ih).trans ih'

namespace Complete

variable {start : String × Path} {m : Module} {n : String}

/-- A name is recorded because a file that is requested calls it and it stands for the path, or
because the walk started with it. -/
theorem exists_call_of_mem_names (h : Complete s start w) (hm : m ∈ w.found) (hn : n ∈ m.names) :
    (∃ v text call, s.Requested [start] v ∧ s.files.read v.2 = .ok text ∧
      call ∈ Lua.requireCalls text ∧ call.name = n ∧ s.target n ≈ m.path) ∨
      (n = start.1 ∧ m.path ≈ start.2) := by
  obtain ⟨p, hp, hr⟩ := h.requested.names m hm n hn
  generalize hv : (n, p) = u at hr
  cases hr with
  | start hmem =>
    obtain rfl := List.mem_singleton.1 hmem
    rw [← hv]
    exact .inr ⟨rfl, Setoid.symm hp⟩
  | @call v text call hr hread hc =>
    obtain ⟨rfl, rfl⟩ := Prod.mk.inj hv
    exact .inl ⟨v, text, call, hr, hread, hc, rfl, hp⟩

/-- A name that a finished file calls is recorded at the path that it stands for. -/
theorem exists_of_call (h : Complete s start w) (hs : start.2.Normal) {p : Path}
    (hp : p ∈ w.finished) {text : String} (hr : s.files.read p = .ok text) {call : Lua.RequireCall}
    (hc : call ∈ Lua.requireCalls text) :
    ∃ d ∈ w.found, d.path ∈ w.finished ∧ d.path = s.target call.name ∧ call.name ∈ d.names := by
  have hfin := h.target_mem_finished hs hp hr hc
  obtain ⟨d, hd, hpath⟩ := List.mem_map.1 (h.sound.finished_found hfin)
  have hload : load s.files p = .ok (some text) := by rw [load, hr]
  have hv := h.inOrder.visited p hp _ hload _ (mem_pending.2 ⟨call, hc, rfl⟩)
  exact ⟨d, hd, hpath ▸ hfin, hpath, hv.2 d hd (Path.equiv_of_eq hpath)⟩

end Complete

/-! ## Where a walk starts -/

/-- A walk from a start that has found all that the start leads to, and what it found there. -/
structure FromStart (s : Scope) (start : String × Path) (w : Walk) (first : Module) : Prop where
  complete : Complete s start w
  normal : start.2.Normal
  nodup_names : ∀ m ∈ w.found, m.names.Nodup
  mem_found : first ∈ w.found
  name_eq : first.name = start.1
  path_eq : first.path = start.2
  /-- The start is finished after all that it leads to. -/
  last : w.finished.getLast? = some start.2

theorem Visits.exists_fromStart {start : String × Path} (h : Visits s [start] {} w none)
    (hs : start.2.Normal) : ∃ first, FromStart s start w first := by
  have hnames := h.nodup_names (.empty s) (by simp)
  have hcomplete := h.complete
  cases h with
  | again hp _ => simp [Walk.hasEntered] at hp
  | @finish name p _ _ w₁ _ _ source? hp hl h h' =>
    cases h' with
    | nil =>
      have hstart : (name, p) ∈ w₁.named := by
        refine h.named_prefix.subset ?_
        rw [named_addModule]
        exact List.mem_append_right _ (List.mem_singleton_self _)
      obtain ⟨first, hfirst, he⟩ := List.mem_map.1 hstart
      obtain ⟨hname, hpath⟩ := Prod.mk.inj he
      refine ⟨first, hcomplete, hs, hnames, hfirst, hname, hpath, ?_⟩
      rw [finished_finish, List.getLast?_concat]

namespace FromStart

variable {start : String × Path} {first m : Module} {n : String}

theorem sound (h : FromStart s start w first) : Sound s w := h.complete.sound

theorem normal_path (h : FromStart s start w first) (hm : m ∈ w.found) : m.path.Normal :=
  h.complete.normal_of_mem_entered h.normal (h.sound.mem_entered hm)

theorem eq_first (h : FromStart s start w first) (hm : m ∈ w.found) (he : m.path ≈ start.2) :
    m = first :=
  h.sound.placedApart.eq_of_equiv hm h.mem_found (h.path_eq ▸ he)

/-- A name stands for the path where it was recorded, but for the own name of the start. -/
theorem target_eq (h : FromStart s start w first) (hm : m ∈ w.found) (hn : n ∈ m.names)
    (hfirst : m = first → n ≠ first.name) : s.target n = m.path := by
  rcases h.complete.exists_call_of_mem_names hm hn with ⟨_, _, _, _, _, _, _, htarget⟩ | ⟨hn, he⟩
  · exact (s.normal_target n).eq_of_equiv (h.normal_path hm) htarget
  · exact absurd (hn.trans h.name_eq.symm) (hfirst (h.eq_first hm he))

theorem target_eq_of_mem_aliases (h : FromStart s start w first) (hn : n ∈ first.aliases) :
    s.target n = first.path := by
  have hapart := (List.nodup_cons.1 (h.nodup_names first h.mem_found)).1
  refine h.target_eq h.mem_found (List.mem_cons_of_mem _ hn) fun _ he => hapart ?_
  rwa [← he]

end FromStart

end Walk

namespace Project

/-! ## Projects -/

/-- The names of the modules, without the entry's own name, and the names that stand for no local
file. -/
def requiredNames (p : Project) : List String :=
  p.modules.dropLast.flatMap (·.names) ++ p.entry?.toList.flatMap (·.aliases) ++ p.skipped

/-- What a name stands for in the walk from an entry. -/
theorem target_scope (files : FileSystem) (settings : Settings) (entry : Path) (name : String) :
    (scope files settings entry).target name =
      importPath (scope files settings entry).base name settings.bareExtension := rfl

theorem mem_skipped_ofWalk {s : Scope} {base : Path} {w : Walk} (h : Walk.Sound s w) {n : String} :
    n ∈ (ofWalk base w).skipped ↔
      ∃ m ∈ w.found, m.path ∈ w.finished ∧ ¬ m.isLocal ∧ n ∈ m.names := by
  simp only [ofWalk, List.mem_flatMap, List.mem_filter, mem_filterMap_module? h,
    Bool.not_eq_true', Bool.not_eq_true, and_assoc]

/-- Names that stand for different places are different. -/
theorem nodup_flatMap_names (target : String → Path) {ms : List Module}
    (h : PlacedApart (·.path) ms) (hnames : ∀ m ∈ ms, m.names.Nodup)
    (htarget : ∀ m ∈ ms, ∀ n ∈ m.names, target n = m.path) : (ms.flatMap (·.names)).Nodup := by
  refine List.nodup_flatMap.2 ⟨hnames, h.imp_of_mem fun {m d} hm hd hne n hn hn' => hne ?_⟩
  exact Path.equiv_of_eq ((htarget m hm n hn).symm.trans (htarget d hd n hn'))

section FromStart

variable {s : Scope} {w : Walk} {start : String × Path} {base : Path} {last m : Module} {n : String}

theorem mem_dropLast_modules (h : Walk.FromStart s start w last)
    (hlast : entry? (ofWalk base w) = some last) :
    m ∈ (ofWalk base w).modules.dropLast ↔
      m ∈ w.found ∧ m.path ∈ w.finished ∧ m.isLocal ∧ m ≠ last := by
  rw [(placedApart_modules base h.sound).mem_dropLast_iff hlast, mem_modules_ofWalk h.sound,
    and_assoc, and_assoc]
  refine and_congr_right fun hm => and_congr_right fun _ => and_congr_right fun _ => not_congr ?_
  exact ⟨h.sound.placedApart.eq_of_equiv hm h.mem_found, fun he => he ▸ Setoid.refl _⟩

/-- The names of a project are those that were recorded, but for the entry's own name. -/
theorem mem_requiredNames_iff (h : Walk.FromStart s start w last)
    (hlast : entry? (ofWalk base w) = some last) :
    n ∈ (ofWalk base w).requiredNames ↔
      ∃ m ∈ w.found, m.path ∈ w.finished ∧ n ∈ m.names ∧ (m = last → n ≠ last.name) := by
  obtain ⟨_, hfin, hlocal⟩ := (mem_modules_ofWalk h.sound).1 (List.mem_of_getLast? hlast)
  have hown : last.name ∉ last.aliases := (List.nodup_cons.1 (h.nodup_names last h.mem_found)).1
  simp only [requiredNames, hlast, Option.toList_some, List.flatMap_singleton, List.mem_append,
    List.mem_flatMap, mem_dropLast_modules h hlast, mem_skipped_ofWalk h.sound]
  constructor
  · rintro ((⟨m, ⟨hm, hp, _, hne⟩, hn⟩ | hn) | ⟨m, hm, hp, hremote, hn⟩)
    · exact ⟨m, hm, hp, hn, fun he => absurd he hne⟩
    · exact ⟨last, h.mem_found, hfin, List.mem_cons_of_mem _ hn, fun _ he => hown (he ▸ hn)⟩
    · exact ⟨m, hm, hp, hn, fun he => absurd (he ▸ hlocal) hremote⟩
  · rintro ⟨m, hm, hp, hn, hne⟩
    by_cases he : m = last
    · rw [he] at hn
      exact .inl (.inr ((List.mem_cons.1 hn).resolve_left (hne he)))
    · by_cases hl : m.isLocal
      · exact .inl (.inl ⟨m, ⟨hm, hp, hl, he⟩, hn⟩)
      · exact .inr ⟨m, hm, hp, hl, hn⟩

/-- A name of the modules before the entry stands for one of them. -/
theorem exists_target_of_mem_modules (h : Walk.FromStart s start w last)
    (hlast : entry? (ofWalk base w) = some last)
    (hn : n ∈ (ofWalk base w).modules.dropLast.flatMap (·.names)) :
    ∃ m ∈ w.found, m.isLocal ∧ m ≠ last ∧ s.target n = m.path := by
  obtain ⟨m, hm, hn⟩ := List.mem_flatMap.1 hn
  obtain ⟨hm, _, hlocal, hne⟩ := (mem_dropLast_modules h hlast).1 hm
  exact ⟨m, hm, hlocal, hne, h.target_eq hm hn fun he => absurd he hne⟩

/-- A name that is skipped stands for a path that is not local. -/
theorem exists_target_of_mem_skipped (h : Walk.FromStart s start w last) (hlocal : last.isLocal)
    (hn : n ∈ (ofWalk base w).skipped) : ∃ m ∈ w.found, ¬ m.isLocal ∧ s.target n = m.path := by
  obtain ⟨m, hm, _, hremote, hn⟩ := (mem_skipped_ofWalk h.sound).1 hn
  exact ⟨m, hm, hremote, h.target_eq hm hn fun he => absurd (he ▸ hlocal) hremote⟩

/-- **A project has no name twice.** -/
theorem nodup_requiredNames (h : Walk.FromStart s start w last)
    (hlast : entry? (ofWalk base w) = some last) : (ofWalk base w).requiredNames.Nodup := by
  obtain ⟨_, _, hlocal⟩ := (mem_modules_ofWalk h.sound).1 (List.mem_of_getLast? hlast)
  have heq {m d : Module} (hm : m ∈ w.found) (hd : d ∈ w.found) (he : m.path = d.path) : m = d :=
    h.sound.placedApart.eq_of_equiv hm hd (Path.equiv_of_eq he)
  have hmodules : ((ofWalk base w).modules.dropLast.flatMap (·.names)).Nodup := by
    refine nodup_flatMap_names s.target
      ((placedApart_modules base h.sound).sublist (List.dropLast_sublist _)) ?_ ?_
    · exact fun m hm => h.nodup_names m ((mem_dropLast_modules h hlast).1 hm).1
    · intro m hm n hn
      obtain ⟨hm, _, _, hne⟩ := (mem_dropLast_modules h hlast).1 hm
      exact h.target_eq hm hn fun he => absurd he hne
  have hskipped : (ofWalk base w).skipped.Nodup := by
    have hapart := placedApart_filterMap_module? h.sound
    refine nodup_flatMap_names s.target (hapart.sublist List.filter_sublist) ?_ ?_
    · intro m hm
      exact h.nodup_names m ((mem_filterMap_module? h.sound).1 (List.mem_filter.1 hm).1).1
    · intro m hm n hn
      obtain ⟨hm, hremote⟩ := List.mem_filter.1 hm
      obtain ⟨hm, _⟩ := (mem_filterMap_module? h.sound).1 hm
      exact h.target_eq hm hn fun he => by simp [he, hlocal] at hremote
  have haliases : last.aliases.Nodup := (List.nodup_cons.1 (h.nodup_names last h.mem_found)).2
  -- names of different parts stand for different paths
  rw [requiredNames, hlast, Option.toList_some, List.flatMap_singleton, List.nodup_append,
    List.nodup_append]
  refine ⟨⟨hmodules, haliases, ?_⟩, hskipped, ?_⟩
  · rintro n hn _ hn' rfl
    obtain ⟨m, hm, _, hne, htarget⟩ := exists_target_of_mem_modules h hlast hn
    exact hne (heq hm h.mem_found (htarget.symm.trans (h.target_eq_of_mem_aliases hn')))
  · rintro n hn _ hn' rfl
    obtain ⟨d, hd, hremote, htarget⟩ := exists_target_of_mem_skipped h hlocal hn'
    rcases List.mem_append.1 hn with hn | hn
    · obtain ⟨m, hm, hl, _, htarget'⟩ := exists_target_of_mem_modules h hlast hn
      exact hremote (heq hm hd (htarget'.symm.trans htarget) ▸ hl)
    · have htarget' := h.target_eq_of_mem_aliases hn
      exact hremote (heq h.mem_found hd (htarget'.symm.trans htarget) ▸ hlocal)

/-- **The names of a project are those that its modules call**, but for the entry's own name where
it stands for the entry. -/
theorem mem_requiredNames_iff_call (h : Walk.FromStart s start w last)
    (hlast : entry? (ofWalk base w) = some last) :
    n ∈ (ofWalk base w).requiredNames ↔
      (∃ m ∈ (ofWalk base w).modules, ∃ call ∈ Lua.requireCalls m.source, call.name = n) ∧
        ¬ (n = last.name ∧ s.target n = last.path) := by
  rw [mem_requiredNames_iff h hlast]
  constructor
  · rintro ⟨d, hd, hfin, hn, hne⟩
    have htarget : s.target n = d.path := h.target_eq hd hn hne
    refine ⟨?_, fun ⟨he, htarget'⟩ => hne (h.eq_first hd ?_) he⟩
    · rcases h.complete.exists_call_of_mem_names hd hn with
        ⟨v, text, call, hv, hread, hcall, hname, _⟩ | ⟨hstart, he⟩
      · have hp := h.complete.mem_finished_of_requested h.normal hv
        obtain ⟨m, hm, _, rfl⟩ := exists_module_of_read base h.sound hp hread
        exact ⟨m, hm, call, hcall, hname⟩
      · exact absurd (hstart.trans h.name_eq.symm) (hne (h.eq_first hd he))
    · exact Path.equiv_of_eq (htarget.symm.trans (htarget'.trans h.path_eq))
  · rintro ⟨⟨m, hm, call, hcall, rfl⟩, hown⟩
    obtain ⟨hp, hread⟩ := read_of_mem_modules h.sound hm
    obtain ⟨d, hd, hfin, hpath, hn⟩ := h.complete.exists_of_call h.normal hp hread hcall
    exact ⟨d, hd, hfin, hn, fun he hname => hown ⟨hname, hpath.symm.trans (he ▸ rfl)⟩⟩

end FromStart

/-- **No name is lost or counted twice.**  The names of a resolved project are all different; a name
of a module stands for the module, and one that is skipped for a path that is no module; and they
are the names that the modules call, but for the entry's own name where it stands for the entry. -/
theorem names_of_resolve {files : FileSystem} {settings : Settings} {entry : Path}
    {project : Project} (h : (resolve files settings entry).result = .ok project) :
    let target := fun name => importPath project.base name settings.bareExtension
    ∃ last, project.entry? = some last ∧
      project.requiredNames.Nodup ∧
      (∀ m ∈ project.modules.dropLast, ∀ n ∈ m.names, target n = m.path) ∧
      (∀ n ∈ last.aliases, target n = last.path) ∧
      (∀ n ∈ project.skipped, ∀ m ∈ project.modules, ¬ target n ≈ m.path) ∧
      ∀ n, n ∈ project.requiredNames ↔
        (∃ m ∈ project.modules, ∃ call ∈ Lua.requireCalls m.source, call.name = n) ∧
          ¬ (n = last.name ∧ target n = last.path) := by
  obtain ⟨_, _, w, hw, rfl, ⟨last, hlast, he⟩, _⟩ := resolve_eq_ok_iff.1 h
  obtain ⟨first, hfirst⟩ := hw.exists_fromStart (Path.normal_normalize entry)
  obtain ⟨hmem, _, hlocal⟩ := (mem_modules_ofWalk hfirst.sound).1 (List.mem_of_getLast? hlast)
  obtain rfl := hfirst.eq_first hmem he
  simp only [base_ofWalk, ← target_scope]
  refine ⟨last, hlast, nodup_requiredNames hfirst hlast, ?_, ?_, ?_, fun n => ?_⟩
  · intro m hm n hn
    obtain ⟨hm, _, _, hne⟩ := (mem_dropLast_modules hfirst hlast).1 hm
    exact hfirst.target_eq hm hn fun he => absurd he hne
  · exact fun n hn => hfirst.target_eq_of_mem_aliases hn
  · intro n hn m hm htarget
    obtain ⟨hm, _, hl⟩ := (mem_modules_ofWalk hfirst.sound).1 hm
    obtain ⟨d, hd, hremote, hd'⟩ := exists_target_of_mem_skipped hfirst hlocal hn
    rw [hd'] at htarget
    exact hremote (hfirst.sound.placedApart.eq_of_equiv hd hm htarget ▸ hl)
  · exact mem_requiredNames_iff_call hfirst hlast

/-! ## Two files that require each other -/

namespace Loop

def entry : Path := ⟨"m.lua"⟩

def entryText : String := "require 'a' require './a' require 'm' require 'x'"

def otherText : String := "require './m'"

/-- Two files that require each other, both by two names, and a name that stands for no file. -/
def files : FileSystem :=
  Store.toFileSystem ⟨[(entry, entryText), (⟨"a.lua"⟩, otherText)]⟩

/-- The walk when it has read both files. -/
def opened : Walk :=
  let s := scope files {} entry
  let w := (Walk.enter {} entry).addModule s "m" entry (some entryText)
  (w.enter ⟨"a.lua"⟩).addModule s "a" ⟨"a.lua"⟩ (some otherText)

/-- The whole walk. -/
def walk : Walk :=
  let w := ((opened.addName "./m" entry).finish ⟨"a.lua"⟩).addName "./a" ⟨"a.lua"⟩
  let w := (w.addName "m" entry).enter ⟨"x.lua"⟩
  ((w.addModule (scope files {} entry) "x" ⟨"x.lua"⟩ none).finish ⟨"x.lua"⟩).finish entry

theorem normalize_entry : entry.normalize = entry := rfl

theorem visits_walk : Walk.Visits (scope files {} entry) [("m", entry)] {} walk none := by
  have hentry : Walk.load (scope files {} entry).files entry = .ok (some entryText) := by
    decide +kernel
  have hother : Walk.load (scope files {} entry).files ⟨"a.lua"⟩ = .ok (some otherText) := by
    decide +kernel
  have hnone : Walk.load (scope files {} entry).files ⟨"x.lua"⟩ = .ok none := by decide +kernel
  have hpending : Walk.pending (scope files {} entry) (some entryText)
      = [("a", ⟨"a.lua"⟩), ("./a", ⟨"a.lua"⟩), ("m", entry), ("x", ⟨"x.lua"⟩)] := by
    decide +kernel
  have hpending' : Walk.pending (scope files {} entry) (some otherText) = [("./m", entry)] := by
    decide +kernel
  have hback : Walk.Visits (scope files {} entry) [("./m", entry)] opened
      (opened.addName "./m" entry) none := .again (by decide +kernel) .nil
  refine .finish (by decide +kernel) hentry ?_ .nil
  rw [hpending]
  refine .finish (by decide +kernel) hother (hpending' ▸ hback) ?_
  refine .again (by decide +kernel) (.again (by decide +kernel) ?_)
  exact .finish (by decide +kernel) hnone .nil .nil

/-- The project of the two files. -/
def project : Project := ofWalk ⟨""⟩ walk

theorem entry_and_names_of_project :
    project.entry? = some
        { name := "m", aliases := ["./m"], path := entry, source? := some entryText,
          requires := [⟨"a.lua"⟩, entry, ⟨"x.lua"⟩] } ∧
      project.requiredNames = ["a", "./a", "./m", "x"] := by
  decide +kernel

theorem resolve_eq : (resolve files {} entry).result = .ok project :=
  resolve_of_visits normalize_entry rfl rfl visits_walk rfl entry_and_names_of_project.1 rfl rfl

end Loop

/-- The entry's own name, which the entry requires itself by, is the one name that is left out. -/
theorem names_of_resolve_loop :
    (resolve Loop.files {} Loop.entry).result = .ok Loop.project ∧
      Loop.project.requiredNames = ["a", "./a", "./m", "x"] ∧
      ∀ n, n ∈ ["a", "./a", "./m", "x"] ↔
        (∃ m ∈ Loop.project.modules, ∃ call ∈ Lua.requireCalls m.source, call.name = n) ∧
          ¬ (n = "m" ∧ importPath ⟨""⟩ n "lua" = ⟨"m.lua"⟩) := by
  obtain ⟨hentry, hnames⟩ := Loop.entry_and_names_of_project
  obtain ⟨last, hlast, _, _, _, _, hiff⟩ := names_of_resolve Loop.resolve_eq
  obtain rfl := Option.some.inj (hentry.symm.trans hlast)
  refine ⟨Loop.resolve_eq, hnames, fun n => ?_⟩
  rw [← hnames]
  exact hiff n

end Project

end LuaBundle
