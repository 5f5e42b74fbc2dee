import LuaBundle.FileSystem

/-!
# Files in memory

A `Store` holds the texts of files under their normal paths, in the order in which the paths were
first inserted.  Directories are not stored: a directory is there when a file lies inside it.
-/

set_option autoImplicit false

namespace LuaBundle

/-- Texts under normal paths. -/
structure Store where
  files : List (Path × String) := []
  deriving Repr

namespace Store

/-- Puts a text at the place of a key, or at the end if the key is new. -/
def put (key : Path) (text : String) : List (Path × String) → List (Path × String)
  | [] => [(key, text)]
  | (k, t) :: rest => if k = key then (k, text) :: rest else (k, t) :: put key text rest

/-- Stores a text at a path, in the place of what was there. -/
def insert (s : Store) (p : Path) (text : String) : Store where
  files := put p.normalize text s.files

def ofList (files : List (Path × String)) : Store :=
  files.foldl (fun s f => s.insert f.1 f.2) {}

def size (s : Store) : Nat :=
  s.files.length

def isEmpty (s : Store) : Bool :=
  s.files.isEmpty

/-- The text at a path. -/
def get? (s : Store) (p : Path) : Option String :=
  let key := p.normalize
  (s.files.find? (·.1 == key)).map (·.2)

def isFile (s : Store) (p : Path) : Bool :=
  (s.get? p).isSome

/-- Whether some file lies inside of a path. -/
def isDirectory (s : Store) (p : Path) : Bool :=
  let dir := p.normalize
  s.files.any (·.1.isBelow dir)

def has (s : Store) (p : Path) : Bool :=
  s.isFile p || s.isDirectory p

def read (s : Store) (p : Path) : Except FileError String :=
  match s.get? p with
  | some text => .ok text
  | none => .error ⟨.notFound, p.text ++ " does not exist"⟩

theorem mem_of_read {s : Store} {p : Path} {text : String} (h : s.read p = .ok text) :
    text ∈ s.files.map (·.2) := by
  unfold read get? at h
  split at h
  · next hg =>
    obtain ⟨f, hf, rfl⟩ := Option.map_eq_some_iff.1 hg
    cases h
    exact List.mem_map_of_mem (List.mem_of_find?_eq_some hf)
  · simp at h

/-- A store as a file system. -/
def toFileSystem (s : Store) : FileSystem where
  has := s.has
  isFile := s.isFile
  read := s.read
  finite := ⟨_, mem_of_read⟩

end Store

end LuaBundle
