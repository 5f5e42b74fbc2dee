import LuaBundle.Path
import LuaBundle.Lua.Require
import LuaBundle.Settings.Layer
import LuaBundle.Text.Quoted

/-!
# Notices

What the program reports while it works.  A `Notice` says what happened; its `level`, its `topic`
and its `text` are read off it.  `Logged` is a computation that may fail and gives notices on the
way; those given before a failure stay.
-/

set_option autoImplicit false

namespace LuaBundle

/-- How important a notice is, the most important first. -/
inductive Level where
  | error
  | warn
  | info
  | debug
  | trace
  deriving DecidableEq, Repr

namespace Level

def rank : Level → Nat
  | error => 0
  | warn => 1
  | info => 2
  | debug => 3
  | trace => 4

def name : Level → String
  | error => "ERROR"
  | warn => "WARN"
  | info => "INFO"
  | debug => "DEBUG"
  | trace => "TRACE"

/-- Whether a notice of the first level is shown when the second is the least important one
shown. -/
def isShown (l least : Level) : Bool :=
  l.rank ≤ least.rank

end Level

/-- The part of the program that a notice comes from. -/
inductive Topic where
  | commandLine
  | settings
  | run
  | discovery
  | scanning
  | bundling
  deriving DecidableEq, Repr

/-- The label that marks the notices of a part. -/
def Topic.label : Topic → String
  | commandLine => "aopack"
  | settings => "aopack::config"
  | run => "aopack::orchestrator"
  | discovery => "aopack::graph_builder"
  | scanning => "aopack::require_scanner"
  | bundling => "aopack::bundler"

/-- Something that the program reports. -/
inductive Notice where
  /-- A file of settings is about to be read. -/
  | settingsFile (layer : Layer) (file : Path)
  /-- The entry file that a run was asked for. -/
  | entryFile (entry : Path)
  /-- The modules of an entry file are about to be found. -/
  | resolving (entry : Path)
  /-- The text of a module calls `require`. -/
  | callFound (call : Lua.RequireCall)
  /-- The file that a call stands for. -/
  | callResolved (source : Path) (call : Lua.RequireCall) (target : Path)
  /-- A required file is not there. -/
  | notLocal (file : Path)
  /-- A file is required by one more name. -/
  | aliasFound (name : String) (canonical : String) (file : Path)
  /-- A file and all that it requires were visited. -/
  | visited (file : Path)
  /-- Modules require each other in a circle. -/
  | cycle (members : List Path)
  /-- How many modules were found, and how many are not local. -/
  | resolved (found skipped : Nat)
  /-- A file occurs again in a list of modules. -/
  | bundledBefore (file : Path) (canonical : String)
  /-- Two modules have one wrapper name. -/
  | wrapperShared (owner : String) (name : String) (wrapper : String)
  /-- The entry module is required by other names. -/
  | entryRequired (names : List String)
  /-- There are more wrappers than a chunk may have local variables. -/
  | tooManyWrappers (count limit : Nat)
  /-- How many modules a bundle holds. -/
  | bundled (count : Nat)
  /-- Names that the bundle does not provide. -/
  | leftOut (names : List String)
  /-- A bundle was written to a file. -/
  | written (bytes : Nat) (file : Path)
  /-- The size of the entry file. -/
  | entrySize (bytes : Nat)
  /-- How many modules the project has. -/
  | projectSize (count : Nat)
  deriving DecidableEq, Repr

/-- A cycle as messages show it: its members and the first of them again. -/
def cycleText (members : List Path) : String :=
  " -> ".intercalate ((members ++ members.take 1).map Path.text)

namespace Notice

def level : Notice → Level
  | cycle .. | wrapperShared .. | tooManyWrappers .. => .warn
  | entryFile .. | bundled .. | leftOut .. | written .. | entrySize .. | projectSize .. => .info
  | settingsFile .. | resolving .. | notLocal .. | aliasFound .. | resolved .. | bundledBefore ..
  | entryRequired .. => .debug
  | callFound .. | callResolved .. | visited .. => .trace

def topic : Notice → Topic
  | settingsFile .. => .settings
  | entryFile .. | entrySize .. | projectSize .. => .commandLine
  | resolving .. | bundled .. | leftOut .. | written .. => .run
  | callFound .. => .scanning
  | callResolved .. | notLocal .. | aliasFound .. | visited .. | cycle .. | resolved .. => .discovery
  | bundledBefore .. | wrapperShared .. | entryRequired .. | tooManyWrappers .. => .bundling

def text : Notice → String
  | settingsFile .user file => s!"Loading user config from {file.text}"
  | settingsFile .project file => s!"Loading project config from {file.text}"
  | settingsFile .explicit file => s!"Loading config from {file.text}"
  | entryFile entry => s!"Loading Lua file: {entry.text}"
  | resolving entry => s!"Resolving project from {entry.text}"
  | callFound call => s!"Found require(\"{call.name}\") on line {call.line}"
  | callResolved source call target =>
    s!"{source.text}:{call.line} requires \"{call.name}\" -> {target.text}"
  | notLocal file => s!"{file.text} is not local, leaving it to the process"
  | aliasFound name canonical file => s!"\"{name}\" is an alias of \"{canonical}\" ({file.text})"
  | visited file => s!"Finished {file.text}"
  | cycle members => s!"Circular require detected: {cycleText members}"
  | resolved found skipped => s!"Resolved {found} local modules ({skipped} skipped)"
  | bundledBefore file canonical =>
    s!"{file.text} already bundled as \"{canonical}\", registering aliases only"
  | wrapperShared owner name wrapper =>
    s!"Modules \"{owner}\" and \"{name}\" share the wrapper name {wrapper}"
  | entryRequired names =>
    s!"Entry module is also required as {Text.quotedList names}; " ++
      "those requires are left to the process"
  | tooManyWrappers count limit =>
    s!"Bundle declares {count} wrapper functions but Lua allows {limit} locals per chunk; " ++
      "it will not load"
  | bundled count => s!"Bundled {count} modules"
  | leftOut names => "Left to the process: " ++ ", ".intercalate names
  | written bytes file => s!"Wrote {bytes} bytes to {file.text}"
  | entrySize bytes => s!"File size: {bytes} bytes"
  | projectSize count => s!"Project structure: {count} modules"

end Notice

/-! ## Computations that give notices -/

/-- The result of a computation that may fail, and the notices that it gave. -/
structure Logged (ε α : Type) where
  result : Except ε α
  notices : List Notice := []

namespace Logged

variable {ε ε' α β : Type}

def ok (a : α) : Logged ε α where
  result := .ok a

def fail (e : ε) : Logged ε α where
  result := .error e

/-- Gives a notice. -/
def note (n : Notice) : Logged ε Unit where
  result := .ok ()
  notices := [n]

/-- Gives some notices. -/
def noteAll (ns : List Notice) : Logged ε Unit where
  result := .ok ()
  notices := ns

def ofExcept (r : Except ε α) : Logged ε α where
  result := r

def bind (m : Logged ε α) (f : α → Logged ε β) : Logged ε β :=
  match m.result with
  | .error e => ⟨.error e, m.notices⟩
  | .ok a =>
    let next := f a
    ⟨next.result, m.notices ++ next.notices⟩

instance : Monad (Logged ε) where
  pure := ok
  bind := bind

/-- The same computation with its failure seen as a cause of another. -/
def mapError (f : ε → ε') (m : Logged ε α) : Logged ε' α where
  result := m.result.mapError f
  notices := m.notices

@[simp] theorem result_bind (m : Logged ε α) (f : α → Logged ε β) :
    (m >>= f).result = m.result >>= fun a => (f a).result := by
  cases m with
  | mk r ns => cases r <;> rfl

/-- A computation succeeds if both of its parts do. -/
theorem result_bind_eq_ok_iff {m : Logged ε α} {f : α → Logged ε β} {b : β} :
    (m >>= f).result = .ok b ↔ ∃ a, m.result = .ok a ∧ (f a).result = .ok b := by
  rw [result_bind]
  cases m.result with
  | error e => exact ⟨nofun, nofun⟩
  | ok a => exact ⟨fun h => ⟨a, rfl, h⟩, fun ⟨_, ha, h⟩ => Except.ok.inj ha ▸ h⟩

/-- A computation fails if one of its parts does. -/
theorem result_bind_eq_error_iff {m : Logged ε α} {f : α → Logged ε β} {e : ε} :
    (m >>= f).result = .error e ↔
      m.result = .error e ∨ ∃ a, m.result = .ok a ∧ (f a).result = .error e := by
  rw [result_bind]
  cases m.result with
  | error e' =>
    refine ⟨fun h => .inl (congrArg _ (Except.error.inj h)), ?_⟩
    rintro (h | ⟨_, h, _⟩)
    · exact congrArg _ (Except.error.inj h)
    · exact nomatch h
  | ok a =>
    refine ⟨fun h => .inr ⟨a, rfl, h⟩, ?_⟩
    rintro (h | ⟨_, ha, h⟩)
    · exact nomatch h
    · exact Except.ok.inj ha ▸ h

theorem result_mapError_eq_ok_iff {f : ε → ε'} {m : Logged ε α} {a : α} :
    (m.mapError f).result = .ok a ↔ m.result = .ok a := by
  cases m with
  | mk r ns =>
    cases r with
    | error e => exact ⟨nofun, nofun⟩
    | ok b => exact ⟨fun h => congrArg _ (Except.ok.inj h), fun h => congrArg _ (Except.ok.inj h)⟩

@[simp] theorem result_pure (a : α) : (pure a : Logged ε α).result = .ok a := rfl

@[simp] theorem result_fail (e : ε) : (fail e : Logged ε α).result = .error e := rfl

@[simp] theorem result_note (n : Notice) : (note n : Logged ε Unit).result = .ok () := rfl

@[simp] theorem result_noteAll (ns : List Notice) : (noteAll ns : Logged ε Unit).result = .ok () :=
  rfl

@[simp] theorem notices_bind_ok {a : α} {ns : List Notice} (f : α → Logged ε β) :
    ((⟨.ok a, ns⟩ : Logged ε α) >>= f).notices = ns ++ (f a).notices := rfl

@[simp] theorem notices_bind_error {e : ε} {ns : List Notice} (f : α → Logged ε β) :
    ((⟨.error e, ns⟩ : Logged ε α) >>= f).notices = ns := rfl

end Logged

end LuaBundle
