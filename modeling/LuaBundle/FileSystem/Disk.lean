import LuaBundle.FileSystem

/-!
# Disks

A `Disk` is a tree of directories and files with a working directory.  A path is followed piece by
piece, as an operating system follows it: every piece but the last must name a directory that is
there, `..` goes to the directory above, and a missing piece is missing even when a later `..`
would leave it again.  This is where a path on a disk differs from `Path.normalize`.

* `Disk.locate` follows a path to the place it names, `Disk.slot` to the place where it would
  create something.
* `Disk.read`, `Disk.write` and `Disk.makeDirectory` are the operations with their errors, and
  `Disk.makeDirectories` makes all that is missing of a path.
* `Disk.toFileSystem` is what the discovery of modules sees of a disk.
-/

set_option autoImplicit false

namespace LuaBundle

namespace FileError

def notFound : FileError := ⟨.notFound, "No such file or directory (os error 2)"⟩
def alreadyExists : FileError := ⟨.alreadyExists, "File exists (os error 17)"⟩
def notADirectory : FileError := ⟨.notADirectory, "Not a directory (os error 20)"⟩
def isADirectory : FileError := ⟨.isADirectory, "Is a directory (os error 21)"⟩
def nameTooLong : FileError := ⟨.invalidFilename, "File name too long (os error 36)"⟩
def notText : FileError := ⟨.invalidData, "stream did not contain valid UTF-8"⟩
def nulInName : FileError := ⟨.invalidInput, "file name contained an unexpected NUL byte"⟩

end FileError

namespace Disk

/-- The names on the way from the root to a place. -/
abbrev Location := List String

/-- What is at a place. -/
inductive Node where
  | directory
  | file (content : ByteArray)

instance : DecidableEq Node
  | .directory, .directory => .isTrue rfl
  | .directory, .file _ => .isFalse nofun
  | .file _, .directory => .isFalse nofun
  | .file a, .file b =>
    decidable_of_iff (a.data = b.data) (by rw [Node.file.injEq, ByteArray.ext_iff])

/-- The longest name of a file or directory, in bytes. -/
def maxNameLength : Nat := 255

/-- The least length of a path that is too long to be followed, in bytes. -/
def pathLengthLimit : Nat := 4096

end Disk

open Disk in
/-- A tree of directories and files, and the place that relative paths start from. -/
structure Disk where
  nodes : List (Location × Node)
  workingDirectory : Location

namespace Disk

/-- What is at a place.  The root is always a directory. -/
def node? (d : Disk) : Location → Option Node
  | [] => some .directory
  | loc => (d.nodes.find? (·.1 == loc)).map (·.2)

/-- Puts a node at the place of an old one, or at the end if the place is new. -/
def putNode (loc : Location) (n : Node) : List (Location × Node) → List (Location × Node)
  | [] => [(loc, n)]
  | (l, m) :: rest => if l = loc then (l, n) :: rest else (l, m) :: putNode loc n rest

def put (d : Disk) (loc : Location) (n : Node) : Disk :=
  { d with nodes := putNode loc n d.nodes }

/-- The places on the way to a place, from the top, and the place itself. -/
def waypoints (loc : Location) : List Location :=
  (List.range loc.length).map (fun n => loc.take (n + 1))

/-- The disk with a node at a place and directories on the way to it. -/
def plant (d : Disk) (loc : Location) (n : Node) : Disk :=
  let d := (waypoints loc.dropLast).foldl
    (fun d l => if (d.node? l).isNone then d.put l .directory else d) d
  d.put loc n

/-- A disk that holds an empty working directory and nothing else. -/
def empty (workingDirectory : Location) : Disk :=
  { nodes := (waypoints workingDirectory).map (·, .directory), workingDirectory }

/-! ## Following paths -/

/-- Takes one step from a place.  No step stands for a piece that names the place itself. -/
def enter (d : Disk) (loc : Location) (step? : Option Step) : Except FileError Location :=
  match d.node? loc with
  | some .directory =>
    match step? with
    | none | some .here => .ok loc
    | some .root => .ok []
    | some .up => .ok loc.dropLast
    | some (.name n) =>
      if n.utf8ByteSize > maxNameLength then .error .nameTooLong
      else if (d.node? (loc ++ [n])).isSome then .ok (loc ++ [n])
      else .error .notFound
  | some (.file _) => .error .notADirectory
  | none => .error .notFound

/-- Follows pieces of a path from a place. -/
def follow (d : Disk) : Location → List (Option Step) → Except FileError Location
  | loc, [] => .ok loc
  | loc, step? :: rest => do d.follow (← d.enter loc step?) rest

/-- Refuses paths that cannot be followed at all. -/
def refuse (p : Path) : Except FileError Unit :=
  if p.text.toList.contains '\x00' then .error .nulInName
  else if p.text.isEmpty then .error .notFound
  else if p.text.utf8ByteSize ≥ pathLengthLimit then .error .nameTooLong
  else .ok ()

/-- The place that a path names. -/
def locate (d : Disk) (p : Path) : Except FileError Location := do
  refuse p
  d.follow d.workingDirectory p.moves

/-- What is at a path. -/
def stat (d : Disk) (p : Path) : Except FileError Node := do
  match d.node? (← d.locate p) with
  | some n => .ok n
  | none => .error .notFound

def has (d : Disk) (p : Path) : Bool :=
  (d.stat p).isOk

def isFile (d : Disk) (p : Path) : Bool :=
  match d.stat p with
  | .ok (.file _) => true
  | _ => false

def isDirectory (d : Disk) (p : Path) : Bool :=
  match d.stat p with
  | .ok .directory => true
  | _ => false

/-! ## Reading and writing -/

/-- The text of the file at a path. -/
def read (d : Disk) (p : Path) : Except FileError String := do
  match ← d.stat p with
  | .directory => .error .isADirectory
  | .file content =>
    match String.fromUTF8? content with
    | some text => .ok text
    | none => .error .notText

/-- Where a path would create something: the directory, and the last step of the path if that is a
name.  `slash` says that a slash follows the name. -/
structure Slot where
  directory : Location
  name? : Option String
  slash : Bool

/-- The place where a path would create something.  All before its last piece must be there. -/
def slot (d : Disk) (p : Path) : Except FileError Slot := do
  refuse p
  let trimmed := (p.pieces.reverse.dropWhile List.isEmpty).reverse
  let slash := trimmed.length < p.pieces.length
  match trimmed.getLast? with
  | none => .ok ⟨[], none, slash⟩
  | some last =>
    let directory ← d.follow d.workingDirectory (p.moves.take (trimmed.length - 1))
    let _ ← d.enter directory none
    match Step.ofPiece? last with
    | some (.name n) => .ok ⟨directory, some n, slash⟩
    | _ => .ok ⟨directory, none, slash⟩

/-- What is at a name in a directory.  A name that is too long cannot even be looked up. -/
def entry? (d : Disk) (directory : Location) (name : String) : Except FileError (Option Node) :=
  if name.utf8ByteSize > maxNameLength then .error .nameTooLong
  else .ok (d.node? (directory ++ [name]))

/-- Writes a file, in the place of the file that was there.  A path that ends in a slash names no
file, whatever is there. -/
def write (d : Disk) (p : Path) (content : ByteArray) : Except FileError Disk := do
  match ← d.slot p with
  | ⟨directory, some n, false⟩ =>
    match ← d.entry? directory n with
    | some .directory => .error .isADirectory
    | _ => .ok (d.put (directory ++ [n]) (.file content))
  | _ => .error .isADirectory

/-- Makes one directory. -/
def makeDirectory (d : Disk) (p : Path) : Except FileError Disk := do
  match ← d.slot p with
  | ⟨directory, some n, _⟩ =>
    match ← d.entry? directory n with
    | some _ => .error .alreadyExists
    | none => .ok (d.put (directory ++ [n]) .directory)
  | _ => .error .alreadyExists

/-- Makes the first of some paths, each of which is the parent of the one before it, after as many
of the others as are missing.  Directories that were made stay when a later one cannot be. -/
def makeChain (d : Disk) : List Path → Disk × Option FileError
  | [] => (d, none)
  | p :: parents =>
    if p.text.isEmpty then (d, none)
    else
      match d.makeDirectory p with
      | .ok d => (d, none)
      | .error e =>
        if e.kind = .notFound then
          match d.makeChain parents with
          | (d, some e) => (d, some e)
          | (d, none) =>
            match d.makeDirectory p with
            | .ok d => (d, none)
            | .error e => (d, if d.isDirectory p then none else some e)
        else (d, if d.isDirectory p then none else some e)

/-- A path, its parent, the parent of that, and so on for at most `n` paths. -/
def ancestors : Nat → Path → List Path
  | 0, _ => []
  | n + 1, p => p :: (p.parent?.map (ancestors n)).getD []

/-- Makes a directory and all that is missing on the way to it. -/
def makeDirectories (d : Disk) (p : Path) : Disk × Option FileError :=
  d.makeChain (ancestors (p.pieces.length + 1) p)

/-- Where a step leads from a place, whatever is there. -/
def lead (loc : Location) : Step → Location
  | .here => loc
  | .root => []
  | .up => loc.dropLast
  | .name n => loc ++ [n]

/-! ## A disk as a file system -/

/-- The text of a file, if it holds one. -/
def text? : Location × Node → Option String
  | (_, .directory) => none
  | (_, .file content) => String.fromUTF8? content

theorem mem_of_read {d : Disk} {p : Path} {text : String} (h : d.read p = .ok text) :
    text ∈ d.nodes.filterMap text? := by
  simp only [read, bind, Except.bind, stat] at h
  cases hl : d.locate p with
  | error e => simp [hl] at h
  | ok loc =>
    cases loc with
    | nil => simp [hl, node?] at h
    | cons name loc =>
      cases hn : d.nodes.find? (·.1 == name :: loc) with
      | none => simp [hl, node?, hn] at h
      | some entry =>
        obtain ⟨place, node⟩ := entry
        cases node with
        | directory => simp [hl, node?, hn] at h
        | file content =>
          simp only [hl, node?, hn, Option.map_some] at h
          split at h
          · next hc =>
            cases h
            exact List.mem_filterMap.2 ⟨_, List.mem_of_find?_eq_some hn, hc⟩
          · simp at h

/-- A disk as a file system. -/
def toFileSystem (d : Disk) : FileSystem where
  has := d.has
  isFile := d.isFile
  read := d.read
  finite := ⟨_, mem_of_read⟩

/-! ## Comparing two disks -/

/-- The files below a place, with the way to them from there. -/
def filesBelow (d : Disk) (loc : Location) : List (Location × ByteArray) :=
  d.nodes.filterMap fun (l, n) =>
    match n with
    | .file content => if loc.isPrefixOf l then some (l.drop loc.length, content) else none
    | .directory => none

/-- The files below the working directory that are new or differ from those of an older disk,
sorted by path. -/
def changes (old new : Disk) : List (String × ByteArray) :=
  let before := old.filesBelow old.workingDirectory
  let changed := (new.filesBelow old.workingDirectory).filter (fun f => !before.contains f)
  (changed.map (fun f => ("/".intercalate f.1, f.2))).mergeSort (fun f g => f.1 ≤ g.1)

end Disk

end LuaBundle
