import LuaBundle.Proofs.Project.Cache

/-!
# What the libraries of a project leave in the cache

An `Execution` remembers for a name which run made the value that is stored under it.  What a run
gives back is up to the text that is run, and it may be nothing.  To store nothing under a name takes
the name out of the cache, and the next `require` of it goes past the bundle.

* `Execution.table` — what the cache holds when it is known what the runs give back, with
  `table_step_call` and `table_step_copy` for the two statements that store something;
* `Project.table_of_resolve` — from the end of its block on, every name of a library holds what the
  library's run gave back, and is in the cache only if that is something;
* `Project.table_of_silent_library` — so a library that ends without a `return` is missing.
-/

set_option autoImplicit false

namespace LuaBundle

namespace Execution

variable {α : Type} {results : Nat → Option α} {x y : Execution} {ms : List Module} {m : Module}
  {name source identifier : String}

/-- What the cache holds under a name, given what each run gives back.  A name that holds nothing is
not in the cache. -/
def table (x : Execution) (results : Nat → Option α) (name : String) : Option α :=
  (x.cache name).bind results

theorem table_store (value : Option Nat) : (x.store name value).table results =
    Function.update (x.table results) name (value.bind results) := by
  funext n
  by_cases hn : n = name
  · simp [table, store, hn]
  · simp [table, store, hn]

/-- A call stores what the run gives back. -/
theorem table_step_call (h : x.step (.call name identifier) = some y) :
    y.table results = Function.update (x.table results) name (results x.starts.length) := by
  obtain ⟨code, _, rfl⟩ := Option.map_eq_some_iff.1 h
  exact table_store (some x.starts.length)

/-- A copy stores what is stored under the other name. -/
theorem table_step_copy (h : x.step (.copy name source) = some y) :
    y.table results = Function.update (x.table results) name (x.table results source) := by
  obtain rfl := Option.some.inj h
  exact table_store (x.cache source)

/-- The names of a module whose block was run hold what its run gave back. -/
theorem Holds.table_eq {i k : Nat} (h : Holds ms k x.cache) (hi : i < k) (hm : ms[i]? = some m)
    (hname : name ∈ m.names) : x.table results name = results i := by
  have hcache : x.cache name = some i := (h name i).2 ⟨hi, m, hm, hname⟩
  rw [table, hcache, Option.bind_some]

/-- **What the first of some blocks leave in the cache**, if no two modules share a name. -/
theorem exists_run_take (hnames : ms.Pairwise fun m d => ∀ n ∈ m.names, n ∉ d.names) (k : Nat) :
    ∃ x, run {} ((ms.take k).flatMap Module.block) = some x ∧
      x.starts.map (·.code) = (ms.take k).map (·.source) ∧
      ∀ (i : Nat) (m : Module), i < k → ms[i]? = some m →
        ∀ n ∈ m.names, x.table results n = results i := by
  obtain ⟨x, hx, hloaded, hcache⟩ := exists_run_blocks (ms.take k)
    (hnames.sublist (List.take_sublist k ms))
  refine ⟨x, hx, hloaded.codes, fun i m hi hm n hn => ?_⟩
  have hlength : i < (ms.take k).length := by
    rw [List.length_take]
    exact Nat.lt_min.2 ⟨hi, (List.getElem?_eq_some_iff.1 hm).1⟩
  exact hcache.table_eq hlength (by rwa [List.getElem?_take_of_lt hi]) hn

end Execution

namespace Project

/-- **What the libraries of a project leave in the cache.**  The bundle of a resolved project has one
block for each library, in order.  When the blocks of some of the first libraries were run, each name
of these libraries holds what the library's run gave back, whatever that is; so a name is in the
cache exactly if the run of its library gave back something. -/
theorem table_of_resolve {files : FileSystem} {settings : Settings} {entry : Path}
    {project : Project} (h : (resolve files settings entry).result = .ok project)
    (style : BundleStyle) {α : Type} (results : Nat → Option α) :
    ∃ bundle last, (Bundle.ofModules style project.modules).result = .ok bundle ∧
      bundle.statements = project.modules.dropLast.flatMap Module.block ++ [.run last] ∧
      ∀ k, ∃ x, Execution.run {} ((project.modules.dropLast.take k).flatMap Module.block) = some x ∧
        x.starts.map (·.code) = (project.modules.dropLast.take k).map (·.source) ∧
        ∀ (i : Nat) (m : Module), i < k → project.modules.dropLast[i]? = some m →
          ∀ n ∈ m.names, x.table results n = results i := by
  obtain ⟨_, _, w, hw, rfl, ⟨last, hlast, he⟩, _⟩ := resolve_eq_ok_iff.1 h
  have hw := hw.complete
  obtain ⟨bundle, hbundle, hstatements⟩ :=
    Bundle.statements_ofModules style (placedApart_modules _ hw.sound) hlast
  exact ⟨bundle, last.source, hbundle, hstatements,
    Execution.exists_run_take (pairwise_names hw hlast he)⟩

/-- The one library of the two files holds what its run gave back. -/
theorem table_of_resolve_pair :
    (resolve Pair.files {} Pair.entry).result = .ok Pair.project ∧
      ∃ x, Execution.run {} ((Pair.project.modules.dropLast.take 1).flatMap Module.block) = some x ∧
        x.starts.map (·.code) = ["return 1"] ∧ x.table (fun _ => some 1) "util" = some 1 := by
  obtain ⟨_, _, _, _, htable⟩ := table_of_resolve Pair.resolve_eq {} fun _ => some 1
  have hmodules : Pair.project.modules.dropLast =
      [{ name := "util", path := ⟨"util.lua"⟩, source? := some "return 1" }] := by decide +kernel
  obtain ⟨x, hx, hcodes, hnames⟩ := htable 1
  rw [hmodules] at hcodes hnames
  exact ⟨Pair.resolve_eq, x, hx, hcodes, hnames 0 _ Nat.one_pos rfl "util" (by decide)⟩

/-! ## A library that gives back nothing -/

namespace Silent

def entry : Path := ⟨"main.lua"⟩

def entryText : String := "require 'setup'"

/-- A text that is run for its effect. -/
def setupText : String := "counter = 0"

def files : FileSystem :=
  Store.toFileSystem ⟨[(entry, entryText), (⟨"setup.lua"⟩, setupText)]⟩

/-- The walk from the entry. -/
def walk : Walk :=
  let s := scope files {} entry
  let w := (Walk.enter {} entry).addModule s "main" entry (some entryText)
  let w := (w.enter ⟨"setup.lua"⟩).addModule s "setup" ⟨"setup.lua"⟩ (some setupText)
  (w.finish ⟨"setup.lua"⟩).finish entry

theorem visits_walk : Walk.Visits (scope files {} entry) [("main", entry)] {} walk none :=
  .of_library (by decide +kernel) (by decide +kernel) (by decide +kernel) (by decide +kernel)
    (by decide +kernel)

def project : Project := ofWalk ⟨""⟩ walk

theorem resolve_eq : (resolve files {} entry).result = .ok project := by
  have hlast : project.entry? = some
      { name := "main", path := entry, source? := some entryText,
        requires := [⟨"setup.lua"⟩] } := by decide +kernel
  exact resolve_of_visits rfl rfl rfl visits_walk rfl hlast rfl rfl

/-- The library of the project. -/
def library : Module :=
  { name := "setup", path := ⟨"setup.lua"⟩, source? := some setupText }

end Silent

/-- **A library that gives back nothing is not in the cache** after its block was run, although it
has a block and the entry requires it. -/
theorem table_of_silent_library :
    (resolve Silent.files {} Silent.entry).result = .ok Silent.project ∧
      Silent.project.modules.dropLast = [Silent.library] ∧ "setup" ∈ Silent.library.names ∧
      ∃ x, Execution.run {} Silent.library.block = some x ∧
        x.starts.map (·.code) = ["counter = 0"] ∧
        x.table (fun _ => (none : Option Unit)) "setup" = none := by
  obtain ⟨x, hx, hstarts, hcache⟩ := Execution.run_block {} Silent.library
  have hname : "setup" ∈ Silent.library.names := by decide
  refine ⟨Silent.resolve_eq, by decide +kernel, hname, x, hx, by rw [hstarts]; rfl, ?_⟩
  rw [Execution.table, hcache, if_pos hname, Option.bind_some]

end Project

end LuaBundle
