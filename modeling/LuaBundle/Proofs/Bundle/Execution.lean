import LuaBundle.Proofs.Bundle.Statements
import Mathlib.Data.List.Induction
import Mathlib.Logic.Function.Basic

/-!
# What a bundle does

A bundle is executed one statement after the other.  What the text of a module computes is left
open: a run of it has a number, and the cache remembers for a name which run made the value that is
stored under it.

* `Execution.step` is one statement, and `Execution.run` some of them in turn.
* `Execution.run_block` — the block of a module runs its text once, and the value is stored under
  all of its names.
* `Execution.Loaded` — what holds after the blocks of some modules of which no two share a name, and
  `exists_run_blocks`: they lead there.
* `exists_run_bundle` — a whole bundle runs every module once, in order, and a module finds in the
  cache exactly the names of the modules before it.
-/

set_option autoImplicit false

namespace LuaBundle

/-- The start of the run of a module. -/
structure Start where
  /-- The text that is run. -/
  code : String
  /-- For every name the run whose value is stored under it when this run starts. -/
  cache : String → Option Nat

/-- What has happened in the execution of a bundle. -/
structure Execution where
  /-- The text of the wrapper that an identifier stands for. -/
  wrappers : String → Option String := fun _ => none
  /-- For every name the run whose value is stored under it. -/
  cache : String → Option Nat := fun _ => none
  /-- The runs so far. -/
  starts : List Start := []

namespace Execution

/-- Starts the run of a text. -/
def start (x : Execution) (code : String) : Execution :=
  { x with starts := x.starts ++ [⟨code, x.cache⟩] }

/-- Stores under a name the value of a run, or nothing. -/
def store (x : Execution) (name : String) (value : Option Nat) : Execution :=
  { x with cache := Function.update x.cache name value }

/-- Executes a statement.  It fails if it calls what is not defined. -/
def step (x : Execution) : Statement → Option Execution
  | .define _ identifier source =>
    some { x with wrappers := Function.update x.wrappers identifier (some source) }
  | .call name identifier =>
    (x.wrappers identifier).map fun code => (x.start code).store name (some x.starts.length)
  | .copy name source => some (x.store name (x.cache source))
  | .run source => some (x.start source)

/-- Executes statements one after the other. -/
def run (x : Execution) (statements : List Statement) : Option Execution :=
  statements.foldlM step x

@[simp] theorem run_nil (x : Execution) : x.run [] = some x := rfl

@[simp] theorem run_cons (x : Execution) (statement : Statement) (statements : List Statement) :
    x.run (statement :: statements) = (x.step statement).bind (·.run statements) := rfl

theorem run_append (x : Execution) (ss ts : List Statement) :
    x.run (ss ++ ts) = (x.run ss).bind (·.run ts) :=
  List.foldlM_append

/-! ## Blocks -/

/-- Copies under some names what is stored under another. -/
theorem run_copies (x : Execution) (source : String) (names : List String) :
    ∃ y, x.run (names.map (.copy · source)) = some y ∧ y.starts = x.starts ∧
      ∀ n, y.cache n = if n ∈ names then x.cache source else x.cache n := by
  induction names generalizing x with
  | nil => exact ⟨x, rfl, rfl, by simp⟩
  | cons name names ih =>
    obtain ⟨y, hy, hstarts, hcache⟩ := ih (x.store name (x.cache source))
    refine ⟨y, hy, hstarts, fun n => ?_⟩
    -- the source keeps its value even if it is copied to itself
    have hsource : (x.store name (x.cache source)).cache source = x.cache source := by
      simp only [store, Function.update_apply]
      split
      · rfl
      · rfl
    rw [hcache, hsource]
    by_cases hn : n ∈ names
    · simp [hn]
    · by_cases he : n = name
      · simp [he, store]
      · simp [hn, he, store]

/-- **The block of a module** runs its text once, with the cache as it was, and stores the value
under all of its names. -/
theorem run_block (x : Execution) (m : Module) :
    ∃ y, x.run m.block = some y ∧ y.starts = x.starts ++ [⟨m.source, x.cache⟩] ∧
      ∀ n, y.cache n = if n ∈ m.names then some x.starts.length else x.cache n := by
  have hcall : x.run m.block = ((Execution.start
      { x with wrappers := Function.update x.wrappers (Lua.identifierOf m.name) (some m.source) }
      m.source).store m.name (some x.starts.length)).run (m.aliases.map (.copy · m.name)) := by
    simp [Module.block, step]
  rw [hcall]
  obtain ⟨y, hy, hstarts, hcache⟩ := run_copies ((Execution.start
      { x with wrappers := Function.update x.wrappers (Lua.identifierOf m.name) (some m.source) }
      m.source).store m.name (some x.starts.length)) m.name m.aliases
  refine ⟨y, hy, hstarts, fun n => ?_⟩
  rw [hcache]
  by_cases hn : n ∈ m.aliases
  · simp [hn, Module.names, store]
  · by_cases he : n = m.name
    · simp [he, Module.names, store]
    · simp [hn, he, Module.names, store, start]

/-! ## Modules in order -/

/-- A name of one of the modules with a smaller number is in the cache, with its module's run. -/
def Holds (ms : List Module) (i : Nat) (cache : String → Option Nat) : Prop :=
  ∀ n j, cache n = some j ↔ j < i ∧ ∃ m, ms[j]? = some m ∧ n ∈ m.names

/-- Every module had one run, in order, and found the names of the modules before it. -/
structure Loaded (ms : List Module) (x : Execution) : Prop where
  codes : x.starts.map (·.code) = ms.map (·.source)
  starts : ∀ i start, x.starts[i]? = some start → Holds ms i start.cache

theorem Loaded.length_starts {ms : List Module} {x : Execution} (h : Loaded ms x) :
    x.starts.length = ms.length := by
  rw [← List.length_map (·.code), h.codes, List.length_map]

theorem Holds.append {ms : List Module} {i : Nat} {cache : String → Option Nat}
    (h : Holds ms i cache) (hi : i ≤ ms.length) (ms' : List Module) :
    Holds (ms ++ ms') i cache := by
  intro n j
  rw [h n j]
  refine and_congr_right fun hj => ?_
  rw [List.getElem?_append_left (Nat.lt_of_lt_of_le hj hi)]

/-- One more run, which finds the names of all modules before it. -/
theorem Loaded.start {ms : List Module} {x : Execution} (h : Loaded ms x)
    (hx : Holds ms ms.length x.cache) {m : Module} {y : Execution}
    (hy : y.starts = x.starts ++ [⟨m.source, x.cache⟩]) : Loaded (ms ++ [m]) y where
  codes := by rw [hy, List.map_append, List.map_append, h.codes, List.map_singleton,
    List.map_singleton]
  starts i start hi := by
    rw [hy] at hi
    rcases Nat.lt_or_ge i x.starts.length with hlt | hge
    · rw [List.getElem?_append_left hlt] at hi
      exact (h.starts i start hi).append (h.length_starts ▸ Nat.le_of_lt hlt) [m]
    · rw [List.getElem?_append_right hge] at hi
      have hzero : i - x.starts.length = 0 := by
        have := (List.getElem?_eq_some_iff.1 hi).1
        simpa using this
      have hlen : i = ms.length := by rw [← h.length_starts]; omega
      rw [hzero] at hi
      obtain rfl := Option.some.inj hi
      rw [hlen]
      exact hx.append (Nat.le_refl _) [m]

/-- **The blocks of modules of which no two share a name.** -/
theorem exists_run_blocks (ms : List Module)
    (hnames : ms.Pairwise fun m d => ∀ n ∈ m.names, n ∉ d.names) :
    ∃ x, run {} (ms.flatMap Module.block) = some x ∧ Loaded ms x ∧ Holds ms ms.length x.cache := by
  induction ms using List.reverseRecOn with
  | nil => exact ⟨{}, rfl, ⟨rfl, by simp⟩, by simp [Holds]⟩
  | append_singleton ms m ih =>
    obtain ⟨hms, -, hlast⟩ := List.pairwise_append.1 hnames
    obtain ⟨x, hx, hloaded, hcache⟩ := ih hms
    obtain ⟨y, hy, hstarts, hcache'⟩ := run_block x m
    refine ⟨y, ?_, hloaded.start hcache hstarts, fun n j => ?_⟩
    · rw [List.flatMap_append, List.flatMap_singleton, run_append, hx]
      exact hy
    · rw [hcache' n, hloaded.length_starts, List.length_append, List.length_singleton]
      split
      · next hn =>
        -- the name is new, so the last module is the only one that has it
        constructor
        · rintro ⟨⟩
          exact ⟨Nat.lt_succ_self _, m, by simp, hn⟩
        · rintro ⟨hj, d, hd, hdn⟩
          rcases Nat.lt_succ_iff_lt_or_eq.1 hj with hlt | rfl
          · rw [List.getElem?_append_left hlt] at hd
            exact absurd hn (hlast d (List.mem_of_getElem? hd) m (by simp) n hdn)
          · rfl
      · next hn =>
        rw [hcache n j]
        constructor
        · rintro ⟨hj, d, hd, hdn⟩
          exact ⟨Nat.lt_succ_of_lt hj, d, by rwa [List.getElem?_append_left hj], hdn⟩
        · rintro ⟨hj, d, hd, hdn⟩
          rcases Nat.lt_succ_iff_lt_or_eq.1 hj with hlt | rfl
          · exact ⟨hlt, d, by rwa [List.getElem?_append_left hlt] at hd, hdn⟩
          · simp only [List.getElem?_concat_length, Option.some.injEq] at hd
            exact absurd (hd ▸ hdn) hn

/-- **A whole bundle** of modules at different places, no two of which share a name but perhaps with
the entry. -/
theorem exists_run_bundle (style : BundleStyle) {ms : List Module} {entry : Module}
    (hms : PlacedApart (·.path) ms) (hentry : ms.getLast? = some entry)
    (hnames : ms.dropLast.Pairwise fun m d => ∀ n ∈ m.names, n ∉ d.names) :
    ∃ bundle x, (Bundle.ofModules style ms).result = .ok bundle ∧
      run {} bundle.statements = some x ∧ Loaded ms x := by
  obtain ⟨bundle, hbundle, hstatements⟩ := Bundle.statements_ofModules style hms hentry
  obtain ⟨x, hx, hloaded, hcache⟩ := exists_run_blocks ms.dropLast hnames
  refine ⟨bundle, x.start entry.source, hbundle, ?_, ?_⟩
  · rw [hstatements, run_append, hx]
    rfl
  · rw [← List.dropLast_append_getLast? entry hentry]
    exact hloaded.start hcache rfl

end Execution

end LuaBundle
