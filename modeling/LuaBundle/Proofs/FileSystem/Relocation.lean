import LuaBundle.FileSystem.Store
import LuaBundle.Proofs.Path.Relocation
import Mathlib.Data.List.Find

/-!
# The same files in another directory

Two file systems agree below two directories when the same names, put after the one directory or the
other, lead to the same answers.

* `FileSystem.AgreesBelow` — what it means;
* `Store.agreesBelow_relocate` — a store agrees with the one whose files were all moved.
-/

set_option autoImplicit false

namespace LuaBundle

/-- Two readings give the same text, or fail for the same reason. -/
def SameRead (r r' : Except FileError String) : Prop :=
  match r, r' with
  | .ok text, .ok text' => text = text'
  | .error e, .error e' => e.kind = e'.kind
  | _, _ => False

/-- All names below one directory are answered for in one file system as they are below another
directory in another file system. -/
def FileSystem.AgreesBelow (files : FileSystem) (b : Path) (files' : FileSystem) (b' : Path) :
    Prop :=
  ∀ names : List String, names ≠ [] → (∀ n ∈ names, IsFileName n) →
    files'.has (names.foldl Path.child b') = files.has (names.foldl Path.child b) ∧
      files'.isFile (names.foldl Path.child b') = files.isFile (names.foldl Path.child b) ∧
      SameRead (files.read (names.foldl Path.child b)) (files'.read (names.foldl Path.child b'))

namespace Path

variable {b b' p q : Path}

theorem IsInside.normal (hb : b.Normal) (h : p.IsInside b) : p.Normal := by
  obtain ⟨names, _, hnames, rfl⟩ := h
  exact hb.foldl_child hnames

theorem IsInside.normal_relocate (hb' : b'.Normal) (h : p.IsInside b) :
    (relocate b b' p).Normal := by
  obtain ⟨names, _, hnames, rfl⟩ := h
  rw [relocate_foldl_child b hb' hnames]
  exact hb'.foldl_child hnames

/-- What is below what moves along. -/
theorem isBelow_relocate (hb' : b'.Normal) (hp : p.IsInside b) (hq : q.IsInside b) :
    (relocate b b' p).isBelow (relocate b b' q) = p.isBelow q := by
  obtain ⟨names, _, hnames, rfl⟩ := hp
  obtain ⟨names', _, hnames', rfl⟩ := hq
  rw [relocate_foldl_child b hb' hnames, relocate_foldl_child b hb' hnames', Bool.eq_iff_iff]
  simp only [isBelow, isWithin, steps_foldl_child hnames, steps_foldl_child hnames',
    Bool.and_eq_true, List.isPrefixOf_iff_prefix, List.prefix_append_right_inj, bne_iff_ne, ne_eq,
    List.append_right_inj]

end Path

namespace Store

variable {s : Store} {b b' p : Path}

/-- The store whose files were moved from one directory to another. -/
def relocate (b b' : Path) (s : Store) : Store where
  files := s.files.map (Prod.map (Path.relocate b b') id)

section

variable (hb : b.Normal) (hb' : b'.Normal) (hs : ∀ file ∈ s.files, file.1.IsInside b)
include hb hb' hs

theorem get?_relocate (hp : p.IsInside b) :
    (s.relocate b b').get? (Path.relocate b b' p) = s.get? p := by
  have hf := Path.isRenaming_relocate hb hb'
  rw [get?, get?, (hp.normal_relocate hb').normalize_eq, (hp.normal hb).normalize_eq, relocate,
    List.find?_map, Option.map_map]
  -- moving keeps the keys apart, so the first file with the key stands where it stood
  refine congrArg (Option.map _) (List.find?_congr fun file hfile => ?_)
  rw [Function.comp_apply, Bool.eq_iff_iff, beq_iff_eq, beq_iff_eq]
  exact ⟨hf.eq_of_eq (hs file hfile) hp, congrArg (Path.relocate b b')⟩

theorem isDirectory_relocate (hp : p.IsInside b) :
    (s.relocate b b').isDirectory (Path.relocate b b' p) = s.isDirectory p := by
  rw [isDirectory, isDirectory, (hp.normal_relocate hb').normalize_eq, (hp.normal hb).normalize_eq,
    relocate, List.any_map, Bool.eq_iff_iff, List.any_eq_true, List.any_eq_true]
  refine exists_congr fun file => and_congr_right fun hfile => ?_
  rw [Function.comp_apply, Prod.map_fst, Path.isBelow_relocate hb' (hs file hfile) hp]

/-- **A store agrees with the moved one.** -/
theorem agreesBelow_relocate :
    s.toFileSystem.AgreesBelow b (s.relocate b b').toFileSystem b' := by
  intro names hne hnames
  have hp : (names.foldl Path.child b).IsInside b := ⟨names, hne, hnames, rfl⟩
  have hget := get?_relocate hb hb' hs hp
  have hdir := isDirectory_relocate hb hb' hs hp
  rw [Path.relocate_foldl_child b hb' hnames] at hget hdir
  have hfile : (s.relocate b b').isFile (names.foldl Path.child b') =
      s.isFile (names.foldl Path.child b) := by rw [isFile, isFile, hget]
  refine ⟨?_, hfile, ?_⟩
  · show (s.relocate b b').has _ = s.has _
    rw [has, has, hfile, hdir]
  · show SameRead (s.read _) ((s.relocate b b').read _)
    rw [read, read, hget]
    cases s.get? (names.foldl Path.child b) <;> rfl

end

end Store

end LuaBundle
