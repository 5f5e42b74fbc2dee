import LuaBundle.Lua.Name
import LuaBundle.Module
import LuaBundle.Notice
import LuaBundle.Settings

/-!
# Bundles

A bundle is one Lua chunk that holds all modules of a project.  Every module but the entry becomes a
local function, its wrapper, which is called at once; the value goes into the cache of loaded
modules under the import name, and is copied from there for every other name of the module.  The
entry follows as it is.

* A `Statement` is what the chunk does in one go, and a bundle is made of paragraphs of statements.
  `Bundle.source` writes them down.
* A `Record` says which name the bundle provides and how.
* `Bundle.ofModules` makes the bundle of a list of modules, whose last one is the entry.  A file that
  occurs again gets no second wrapper.
-/

set_option autoImplicit false

namespace LuaBundle

/-- How a bundle provides a name. -/
inductive RecordKind where
  /-- By a wrapper, whose value goes into the cache. -/
  | wrapped
  /-- By a copy of a value that is in the cache. -/
  | alias
  /-- As the entry, which is in no cache. -/
  | entry
  deriving DecidableEq, Repr

/-- A name that a bundle provides. -/
structure Record where
  name : String
  /-- The identifier of the wrapper that makes the value. -/
  identifier : String
  path : Path
  kind : RecordKind
  deriving DecidableEq, Repr

/-- Something that a bundle does. -/
inductive Statement where
  /-- Defines the wrapper of a module. -/
  | define (name identifier source : String)
  /-- Calls a wrapper and stores the value under a name. -/
  | call (name identifier : String)
  /-- Stores under a name what is stored under another. -/
  | copy (name source : String)
  /-- Runs the text of the entry. -/
  | run (source : String)
  deriving DecidableEq, Repr

/-- A bundle: paragraphs of statements, and the names that they provide. -/
structure Bundle where
  style : BundleStyle
  paragraphs : List (List Statement) := []
  records : List Record := []
  deriving Repr

/-! ## The text of a bundle -/

/-- The place of a name in the cache of loaded modules. -/
def cacheEntry (style : BundleStyle) (name : String) : String :=
  style.cacheTable ++ "[" ++ Lua.quote name ++ "]"

namespace Statement

/-- The comment above a wrapper. -/
def header (style : BundleStyle) (name : String) : String :=
  if style.moduleHeaders then "-- module: " ++ Lua.quote name ++ "\n" else ""

def text (style : BundleStyle) : Statement → String
  | define name identifier source =>
    header style name ++ "local function " ++ style.functionPrefix ++ identifier ++ "()\n" ++
      source ++ "\nend"
  | call name identifier =>
    cacheEntry style name ++ " = " ++ style.functionPrefix ++ identifier ++ "()"
  | copy name source => cacheEntry style name ++ " = " ++ cacheEntry style source
  | run source => source

end Statement

namespace Bundle

/-- What the bundle does, in order. -/
def statements (b : Bundle) : List Statement :=
  b.paragraphs.flatten

/-- The text of a bundle: one line break between two statements of a paragraph, and an empty line
between two paragraphs. -/
def source (b : Bundle) : String :=
  "\n\n".intercalate (b.paragraphs.map fun p => "\n".intercalate (p.map (Statement.text b.style)))

/-! ## The names of a bundle -/

/-- How many different files the bundle holds. -/
def moduleCount (b : Bundle) : Nat :=
  b.records.countP (·.kind != .alias)

def wrapperCount (b : Bundle) : Nat :=
  b.records.countP (·.kind == .wrapped)

/-- How many local variables a Lua chunk may have.  Every wrapper is one. -/
def maxLocals : Nat := 200

/-- Whether the wrappers alone are more than the local variables that a chunk may have. -/
def exceedsLocals (b : Bundle) : Bool :=
  b.wrapperCount > maxLocals

def entry? (b : Bundle) : Option Record :=
  b.records.find? (·.kind == .entry)

/-- The first record of a name. -/
def record? (b : Bundle) (name : String) : Option Record :=
  b.records.find? (·.name == name)

/-- The record of the wrapper of a path. -/
def wrapperOfPath? (b : Bundle) (p : Path) : Option Record :=
  let place := p.steps
  b.records.find? (fun r => r.kind == .wrapped && r.path.steps == place)

/-- The record of the first wrapper with an identifier. -/
def ownerOf? (b : Bundle) (identifier : String) : Option Record :=
  b.records.find? (fun r => r.kind == .wrapped && r.identifier == identifier)

/-! ## Making a bundle -/

/-- Adds the wrapper of a module whose path has none. -/
def addWrapper (b : Bundle) (m : Module) : Bundle :=
  let identifier := Lua.identifierOf m.name
  let record (name : String) (kind : RecordKind) : Record :=
    { name, identifier, path := m.path, kind }
  { b with
    paragraphs := b.paragraphs ++
      [[.define m.name identifier m.source],
        .call m.name identifier :: m.aliases.map (.copy · m.name)]
    records := b.records ++ record m.name .wrapped :: m.aliases.map (record · .alias) }

/-- Adds the names of a module whose path has a wrapper, but for the name of the wrapper. -/
def addAliases (b : Bundle) (wrapper : Record) (m : Module) : Bundle :=
  let names := m.names.filter (· != wrapper.name)
  { b with
    paragraphs := b.paragraphs ++ if names.isEmpty then [] else [names.map (.copy · wrapper.name)]
    records := b.records ++ names.map fun name =>
      { name, identifier := wrapper.identifier, path := m.path, kind := .alias } }

/-- What is reported about the addition of a module. -/
def additionNotices (b : Bundle) (m : Module) : List Notice :=
  match b.wrapperOfPath? m.path with
  | some wrapper => [.bundledBefore m.path wrapper.name]
  | none =>
    let identifier := Lua.identifierOf m.name
    match b.ownerOf? identifier with
    | some owner => [.wrapperShared owner.name m.name (b.style.functionPrefix ++ identifier)]
    | none => []

/-- Adds a module that is not the entry. -/
def addLibrary (b : Bundle) (m : Module) : Bundle :=
  match b.wrapperOfPath? m.path with
  | some wrapper => b.addAliases wrapper m
  | none => b.addWrapper m

/-- Adds modules one after the other, with what is reported about them. -/
def addLibraries (b : Bundle) : List Module → Bundle × List Notice
  | [] => (b, [])
  | m :: ms =>
    let (last, notices) := (b.addLibrary m).addLibraries ms
    (last, b.additionNotices m ++ notices)

/-- Adds the entry. -/
def addEntry (b : Bundle) (m : Module) : Bundle :=
  { b with
    paragraphs := b.paragraphs ++ [[.run m.source]]
    records := b.records ++
      [{ name := m.name, identifier := Lua.identifierOf m.name, path := m.path, kind := .entry }] }

/-- Why there is no bundle. -/
inductive Fault where
  /-- There is no module, and so no entry. -/
  | noModules
  deriving DecidableEq, Repr

/-- The reasons of a failure, the outermost first. -/
def Fault.chain : Fault → List String
  | noModules => ["Cannot bundle an empty module list"]

/-- The bundle of some modules.  The last one is the entry. -/
def ofModules (style : BundleStyle) (modules : List Module) : Logged Fault Bundle := do
  match modules.getLast? with
  | none => Logged.fail .noModules
  | some entry =>
    let (libraries, notices) := addLibraries { style } modules.dropLast
    Logged.noteAll notices
    if !entry.aliases.isEmpty then
      Logged.note (.entryRequired entry.aliases)
    let bundle := libraries.addEntry entry
    if bundle.exceedsLocals then
      Logged.note (.tooManyWrappers bundle.wrapperCount maxLocals)
    return bundle

end Bundle

end LuaBundle
