import LuaBundle.Proofs.Bundle.Execution
import Mathlib.Data.Finset.Card

/-!
# Bundles of files that occur again

A list of modules may hold a file several times, and the occurrences need not agree on its name, its
aliases or its text.  The first one makes the wrapper; a later one only adds names to it.

* `firstPlaced` — the first occurrences, one for every place (`length_firstPlaced`);
* `Registered` — what a bundle holds for some modules, with `Registered.addLibrary_cases` for what
  happens to one more module and `Registered.addLibrary` for what it keeps;
* `Provided` — what an execution has stored for some modules, and `exists_run_addLibraries`: a
  bundle of modules leads there, if no name belongs to two places;
* `registration_of_libraries` — a whole bundle.
-/

set_option autoImplicit false

namespace LuaBundle

/-! ## First occurrences -/

/-- The modules of a list at whose place there is none before them. -/
def firstPlaced : List Module → List Module
  | [] => []
  | m :: ms => m :: (firstPlaced ms).filter fun d => ¬ d.path ≈ m.path

variable {ms : List Module} {m d : Module}

theorem firstPlaced_sublist (ms : List Module) : (firstPlaced ms).Sublist ms := by
  induction ms with
  | nil => exact .slnil
  | cons m ms ih => exact (List.filter_sublist.trans ih).cons_cons m

theorem placedApart_firstPlaced (ms : List Module) : PlacedApart (·.path) (firstPlaced ms) := by
  induction ms with
  | nil => exact .nil
  | cons m ms ih =>
    refine List.pairwise_cons.2 ⟨fun d hd he => ?_, ih.sublist List.filter_sublist⟩
    exact absurd (Setoid.symm he) (by simpa using (List.mem_filter.1 hd).2)

theorem exists_mem_firstPlaced (hm : m ∈ ms) : ∃ d ∈ firstPlaced ms, d.path ≈ m.path := by
  induction ms with
  | nil => simp at hm
  | cons c ms ih =>
    rw [firstPlaced]
    rcases List.mem_cons.1 hm with rfl | hm
    · exact ⟨m, List.mem_cons_self, Setoid.refl _⟩
    · obtain ⟨d, hd, he⟩ := ih hm
      by_cases hdc : d.path ≈ c.path
      · exact ⟨c, List.mem_cons_self, Setoid.trans (Setoid.symm hdc) he⟩
      · exact ⟨d, List.mem_cons_of_mem _ (List.mem_filter.2 ⟨hd, by simpa using hdc⟩), he⟩

/-- There are as many first occurrences as places. -/
theorem length_firstPlaced (ms : List Module) :
    (firstPlaced ms).length = (ms.map (·.path.steps)).toFinset.card := by
  have hnodup : ((firstPlaced ms).map (·.path.steps)).Nodup :=
    List.pairwise_map.2 (placedApart_firstPlaced ms)
  rw [← List.length_map (·.path.steps), ← List.toFinset_card_of_nodup hnodup]
  congr 1
  ext place
  simp only [List.mem_toFinset, List.mem_map]
  constructor
  · rintro ⟨m, hm, rfl⟩
    exact ⟨m, (firstPlaced_sublist ms).subset hm, rfl⟩
  · rintro ⟨m, hm, rfl⟩
    exact exists_mem_firstPlaced hm

/-- One more module is a first occurrence if its place is new. -/
theorem firstPlaced_append_singleton (ms : List Module) (m : Module) :
    firstPlaced (ms ++ [m]) =
      if ∃ d ∈ ms, d.path ≈ m.path then firstPlaced ms else firstPlaced ms ++ [m] := by
  induction ms with
  | nil => simp [firstPlaced]
  | cons c ms ih =>
    rw [List.cons_append, firstPlaced, ih]
    by_cases hms : ∃ d ∈ ms, d.path ≈ m.path
    · have hcons : ∃ d ∈ c :: ms, d.path ≈ m.path := by
        obtain ⟨d, hd, he⟩ := hms
        exact ⟨d, List.mem_cons_of_mem _ hd, he⟩
      rw [if_pos hms, if_pos hcons, firstPlaced]
    · rw [if_neg hms, List.filter_append, firstPlaced]
      by_cases hc : c.path ≈ m.path
      · rw [if_pos ⟨c, List.mem_cons_self, hc⟩]
        have hdrop : decide (¬ m.path ≈ c.path) = false :=
          decide_eq_false (not_not.2 (Setoid.symm hc))
        simp only [List.filter_cons, hdrop, Bool.false_eq_true, if_false, List.filter_nil,
          List.append_nil]
      · have hcons : ¬ ∃ d ∈ c :: ms, d.path ≈ m.path := by
          rintro ⟨d, hd, he⟩
          rcases List.mem_cons.1 hd with rfl | hd
          · exact hc he
          · exact hms ⟨d, hd, he⟩
        have hkeep : decide (¬ m.path ≈ c.path) = true :=
          decide_eq_true fun he => hc (Setoid.symm he)
        rw [if_neg hcons]
        simp only [List.filter_cons, hkeep, if_true, List.filter_nil, List.cons_append]

/-! ## What a bundle holds -/

/-- Whether a statement copies what is stored under another name. -/
def Statement.isCopy : Statement → Bool
  | copy .. => true
  | _ => false

/-- The wrapper of a module and its call. -/
def Module.wrapper (m : Module) : List Statement :=
  [.define m.name (Lua.identifierOf m.name) m.source, .call m.name (Lua.identifierOf m.name)]

/-- What a bundle records about a module under its import name. -/
def Module.record (m : Module) (kind : RecordKind) : Record where
  name := m.name
  identifier := Lua.identifierOf m.name
  path := m.path
  kind := kind

namespace Bundle

variable {b : Bundle}

theorem filter_isCopy_copies (names : List String) (source : String) :
    (names.map (Statement.copy · source)).filter (!·.isCopy) = [] := by
  simp [List.filter_map, Statement.isCopy, Function.comp_def]

theorem statements_addAliases (b : Bundle) (wrapper : Record) (m : Module) :
    (b.addAliases wrapper m).statements =
      b.statements ++ (m.names.filter (· != wrapper.name)).map (.copy · wrapper.name) := by
  simp only [statements, addAliases, List.flatten_append]
  split
  · next hnil => rw [List.isEmpty_iff.1 hnil]; rfl
  · rw [List.flatten_singleton]

/-- What a bundle holds for some modules: one wrapper for every first occurrence, and aliases of
these. -/
structure Registered (style : BundleStyle) (ms : List Module) (b : Bundle) : Prop where
  style_eq : b.style = style
  statements : b.statements.filter (!·.isCopy) = (firstPlaced ms).flatMap Module.wrapper
  records : b.records.filter (·.kind != .alias) = (firstPlaced ms).map (·.record .wrapped)
  aliases : ∀ r ∈ b.records, r.kind = .alias →
    ∃ d ∈ firstPlaced ms, d.path ≈ r.path ∧ r.identifier = Lua.identifierOf d.name

namespace Registered

variable {style : BundleStyle}

theorem empty (style : BundleStyle) : Registered style [] { style } :=
  ⟨rfl, rfl, rfl, by simp⟩

/-- The wrapper of a place is that of the first occurrence there. -/
theorem wrapperOfPath?_eq (h : Registered style ms b) (p : Path) :
    b.wrapperOfPath? p =
      ((firstPlaced ms).find? (·.path.steps == p.steps)).map (·.record .wrapped) := by
  have hfilter : b.wrapperOfPath? p = (b.records.filter (·.kind != .alias)).find?
      fun r => r.kind == .wrapped && r.path.steps == p.steps := by
    rw [List.find?_filter]
    refine congrArg (List.find? · b.records) (funext fun r => ?_)
    rw [Bool.eq_iff_iff]
    cases r.kind <;> simp
  rw [hfilter, h.records, List.find?_map]
  rfl

theorem wrapperOfPath?_eq_some_iff (h : Registered style ms b) {p : Path} {r : Record} :
    b.wrapperOfPath? p = some r ↔ ∃ d ∈ firstPlaced ms, d.path ≈ p ∧ d.record .wrapped = r := by
  simp only [h.wrapperOfPath?_eq, Option.map_eq_some_iff,
    (placedApart_firstPlaced ms).find?_eq_some_iff, and_assoc]

theorem wrapperOfPath?_eq_none_iff (h : Registered style ms b) {p : Path} :
    b.wrapperOfPath? p = none ↔ ¬ ∃ d ∈ ms, d.path ≈ p := by
  rw [Option.eq_none_iff_forall_ne_some]
  constructor
  · rintro hnone ⟨d, hd, he⟩
    obtain ⟨c, hc, hcd⟩ := exists_mem_firstPlaced hd
    exact hnone _ (h.wrapperOfPath?_eq_some_iff.2 ⟨c, hc, Setoid.trans hcd he, rfl⟩)
  · rintro hnone r hr
    obtain ⟨d, hd, he, _⟩ := h.wrapperOfPath?_eq_some_iff.1 hr
    exact hnone ⟨d, (firstPlaced_sublist ms).subset hd, he⟩

/-- **What happens to one more module**: it gets a wrapper if its place is new, and otherwise adds
its names to the wrapper of the first occurrence. -/
theorem addLibrary_cases (h : Registered style ms b) (m : Module) :
    (firstPlaced (ms ++ [m]) = firstPlaced ms ++ [m] ∧ (∀ d ∈ ms, ¬ d.path ≈ m.path) ∧
        b.addLibrary m = b.addWrapper m) ∨
      (firstPlaced (ms ++ [m]) = firstPlaced ms ∧ ∃ d ∈ firstPlaced ms, d.path ≈ m.path ∧
        b.addLibrary m = b.addAliases (d.record .wrapped) m) := by
  rw [firstPlaced_append_singleton, addLibrary]
  cases hw : b.wrapperOfPath? m.path with
  | none =>
    have hnew := h.wrapperOfPath?_eq_none_iff.1 hw
    rw [if_neg hnew]
    exact .inl ⟨rfl, fun d hd he => hnew ⟨d, hd, he⟩, rfl⟩
  | some wrapper =>
    obtain ⟨d, hd, he, rfl⟩ := h.wrapperOfPath?_eq_some_iff.1 hw
    rw [if_pos ⟨d, (firstPlaced_sublist ms).subset hd, he⟩]
    exact .inr ⟨rfl, d, hd, he, rfl⟩

theorem addWrapper (h : Registered style ms b)
    (hfirst : firstPlaced (ms ++ [m]) = firstPlaced ms ++ [m]) :
    Registered style (ms ++ [m]) (b.addWrapper m) where
  style_eq := h.style_eq
  statements := by
    have hblock : m.block = m.wrapper ++ m.aliases.map (.copy · m.name) := rfl
    rw [statements_addWrapper, hblock, List.filter_append, List.filter_append, h.statements,
      filter_isCopy_copies, hfirst, List.flatMap_append, List.flatMap_singleton, List.append_nil]
    rfl
  records := by
    have hrecords : (b.addWrapper m).records = b.records ++ m.record .wrapped ::
      m.aliases.map fun name => { m.record .alias with name } := rfl
    rw [hrecords, List.filter_append, h.records, hfirst, List.map_append]
    simp [List.filter_map, Module.record, Function.comp_def]
  aliases r hr hkind := by
    rw [hfirst]
    rcases List.mem_append.1 hr with hr | hr
    · obtain ⟨d, hd, he⟩ := h.aliases r hr hkind
      exact ⟨d, List.mem_append_left _ hd, he⟩
    · rcases List.mem_cons.1 hr with rfl | hr
      · simp at hkind
      · obtain ⟨_, _, rfl⟩ := List.mem_map.1 hr
        exact ⟨m, List.mem_append_right _ (List.mem_singleton_self m), Setoid.refl _, rfl⟩

theorem addAliases (h : Registered style ms b) (hfirst : firstPlaced (ms ++ [m]) = firstPlaced ms)
    (hd : d ∈ firstPlaced ms) (hdm : d.path ≈ m.path) :
    Registered style (ms ++ [m]) (b.addAliases (d.record .wrapped) m) where
  style_eq := h.style_eq
  statements := by
    rw [statements_addAliases, List.filter_append, filter_isCopy_copies, List.append_nil, hfirst]
    exact h.statements
  records := by
    rw [hfirst, ← h.records]
    simp [Bundle.addAliases, List.filter_map, Function.comp_def]
  aliases r hr hkind := by
    rw [hfirst]
    rcases List.mem_append.1 hr with hr | hr
    · exact h.aliases r hr hkind
    · obtain ⟨_, _, rfl⟩ := List.mem_map.1 hr
      exact ⟨d, hd, hdm, rfl⟩

/-- **What one more module keeps.** -/
theorem addLibrary (h : Registered style ms b) (m : Module) :
    Registered style (ms ++ [m]) (b.addLibrary m) := by
  rcases h.addLibrary_cases m with ⟨hfirst, _, hadd⟩ | ⟨hfirst, d, hd, hdm, hadd⟩
  · rw [hadd]
    exact h.addWrapper hfirst
  · rw [hadd]
    exact h.addAliases hfirst hd hdm

end Registered

theorem addLibraries_append_singleton (b : Bundle) (ms : List Module) (m : Module) :
    (b.addLibraries (ms ++ [m])).1 = (b.addLibraries ms).1.addLibrary m := by
  induction ms generalizing b with
  | nil => rfl
  | cons c ms ih => exact ih (b.addLibrary c)

/-- **What a bundle of modules holds.** -/
theorem registered_addLibraries (style : BundleStyle) (ms : List Module) :
    Registered style ms (addLibraries { style } ms).1 := by
  induction ms using List.reverseRecOn with
  | nil => exact .empty style
  | append_singleton ms m ih =>
    rw [addLibraries_append_singleton]
    exact ih.addLibrary m

end Bundle

/-! ## What an execution stores -/

namespace Execution

variable {x : Execution}

/-- The wrapper of every first occurrence had one run, in order, and all names of the modules at its
place have the value of that run. -/
structure Provided (ms : List Module) (x : Execution) : Prop where
  codes : x.starts.map (·.code) = (firstPlaced ms).map (·.source)
  names : ∀ m ∈ ms, ∀ n ∈ m.names,
    ∃ j d, (firstPlaced ms)[j]? = some d ∧ d.path ≈ m.path ∧ x.cache n = some j

/-- No name belongs to two places. -/
def NamesApart (ms : List Module) : Prop :=
  ∀ m ∈ ms, ∀ d ∈ ms, ∀ n ∈ m.names, n ∈ d.names → m.path ≈ d.path

theorem NamesApart.of_append_left {ms ms' : List Module} (h : NamesApart (ms ++ ms')) :
    NamesApart ms := fun m hm d hd =>
  h m (List.mem_append_left _ hm) d (List.mem_append_left _ hd)

/-- The block of a module at a new place. -/
theorem Provided.run_block (h : Provided ms x)
    (hfirst : firstPlaced (ms ++ [m]) = firstPlaced ms ++ [m])
    (hnew : ∀ d ∈ ms, ¬ d.path ≈ m.path) (hapart : NamesApart (ms ++ [m])) :
    ∃ y, x.run m.block = some y ∧ Provided (ms ++ [m]) y := by
  obtain ⟨y, hy, hstarts, hcache⟩ := Execution.run_block x m
  have hlen : x.starts.length = (firstPlaced ms).length := by
    rw [← List.length_map (·.code), h.codes, List.length_map]
  refine ⟨y, hy, ?_, fun d hd n hn => ?_⟩
  · rw [hstarts, hfirst, List.map_append, List.map_append, h.codes]
    rfl
  · rw [hfirst, hcache n]
    rcases List.mem_append.1 hd with hold | hd
    · have hother : n ∉ m.names := fun hn' =>
        hnew d hold (hapart d hd m (by simp) n hn hn')
      obtain ⟨j, c, hj, hcd, hvalue⟩ := h.names d hold n hn
      have hlt := (List.getElem?_eq_some_iff.1 hj).1
      exact ⟨j, c, by rwa [List.getElem?_append_left hlt], hcd, by rwa [if_neg hother]⟩
    · obtain rfl := List.mem_singleton.1 hd
      exact ⟨x.starts.length, d, by rw [hlen, List.getElem?_concat_length], Setoid.refl _,
        if_pos hn⟩

/-- The copies for a module at a place that has a wrapper. -/
theorem Provided.run_copies (h : Provided ms x) (hfirst : firstPlaced (ms ++ [m]) = firstPlaced ms)
    (hd : d ∈ firstPlaced ms) (hdm : d.path ≈ m.path) (hapart : NamesApart (ms ++ [m])) :
    ∃ y, x.run ((m.names.filter (· != d.name)).map (.copy · d.name)) = some y ∧
      Provided (ms ++ [m]) y := by
  obtain ⟨y, hy, hstarts, hcache⟩ := Execution.run_copies x d.name (m.names.filter (· != d.name))
  obtain ⟨j, c, hj, hcd, hvalue⟩ :=
    h.names d ((firstPlaced_sublist ms).subset hd) d.name List.mem_cons_self
  refine ⟨y, hy, by rw [hstarts, hfirst, h.codes], fun e he n hn => ?_⟩
  rw [hfirst, hcache n]
  by_cases hcopied : n ∈ m.names.filter (· != d.name)
  · have hme : m.path ≈ e.path :=
      hapart m (by simp) e he n (List.mem_filter.1 hcopied).1 hn
    exact ⟨j, c, hj, Setoid.trans (Setoid.trans hcd hdm) hme, by rwa [if_pos hcopied]⟩
  · rw [if_neg hcopied]
    rcases List.mem_append.1 he with hold | he
    · exact h.names e hold n hn
    · -- the one name that is not copied is that of the wrapper
      obtain rfl := List.mem_singleton.1 he
      have hname : n = d.name := by
        by_contra hne
        exact hcopied (List.mem_filter.2 ⟨hn, by simpa using hne⟩)
      exact ⟨j, c, hj, Setoid.trans hcd hdm, hname ▸ hvalue⟩

/-- **A bundle of modules stores the value of each wrapper under all names of its place.** -/
theorem exists_run_addLibraries (style : BundleStyle) (ms : List Module) (hapart : NamesApart ms) :
    ∃ x, run {} (Bundle.addLibraries { style } ms).1.statements = some x ∧ Provided ms x := by
  induction ms using List.reverseRecOn with
  | nil => exact ⟨{}, rfl, rfl, by simp⟩
  | append_singleton ms m ih =>
    obtain ⟨x, hx, hprovided⟩ := ih hapart.of_append_left
    rw [Bundle.addLibraries_append_singleton]
    rcases (Bundle.registered_addLibraries style ms).addLibrary_cases m with
      ⟨hfirst, hnew, hadd⟩ | ⟨hfirst, d, hd, hdm, hadd⟩
    · rw [hadd, Bundle.statements_addWrapper, run_append, hx]
      exact hprovided.run_block hfirst hnew hapart
    · rw [hadd, Bundle.statements_addAliases, run_append, hx]
      exact hprovided.run_copies hfirst hd hdm hapart

end Execution

/-! ## Whole bundles -/

namespace Bundle

/-- The text of the entry stands behind that of the modules, as it is. -/
theorem source_addEntry (b : Bundle) (entry : Module) :
    (b.addEntry entry).source =
      (if b.paragraphs = [] then "" else b.source ++ "\n\n") ++ entry.source := by
  have hentry : "\n".intercalate ([Statement.run entry.source].map (Statement.text b.style))
      = entry.source := by
    rw [List.map_singleton, String.intercalate_singleton]
    rfl
  have hparagraphs : (b.addEntry entry).source = "\n\n".intercalate
      ((b.paragraphs.map fun p => "\n".intercalate (p.map (Statement.text b.style))) ++
        [entry.source]) := by
    rw [← hentry, source, addEntry, List.map_append]
    rfl
  rw [hparagraphs]
  split
  · next hnil => rw [hnil, List.map_nil, List.nil_append, String.intercalate_singleton]; rfl
  · next hne =>
    rw [String.intercalate_append_of_ne_nil (by simpa using hne) (by simp),
      String.intercalate_singleton]
    rfl

/-- The entry is nobody's wrapper. -/
theorem wrapperOfPath?_addEntry (b : Bundle) (entry : Module) (p : Path) :
    (b.addEntry entry).wrapperOfPath? p = b.wrapperOfPath? p := by
  rw [wrapperOfPath?, addEntry, List.find?_append, wrapperOfPath?]
  simp

namespace Repeated

/-- A file, another one whose wrapper has the same identifier, and the first one again, with its
path and its name spelled in another way. -/
def libraries : List Module :=
  [{ name := "a.b", aliases := ["a/b"], path := ⟨"/p/a/b.lua"⟩, source? := some "return 1" },
    { name := "a_b", path := ⟨"/p/a_b.lua"⟩, source? := some "return 2" },
    { name := "./a/b", aliases := ["a.b"], path := ⟨"/p/a//b.lua"⟩, source? := some "return 3" }]

def entry : Module :=
  { name := "main", path := ⟨"/p/main.lua"⟩, source? := some "print(1)" }

theorem namesApart : Execution.NamesApart libraries := by
  unfold Execution.NamesApart
  decide +kernel

end Repeated

end Bundle

end LuaBundle
