import LuaBundle.FileSystem.Store
import Mathlib.Data.List.Induction
import Mathlib.Data.List.Nodup

/-!
# The order of the files in a store

A store keeps its files in a list, but nothing that is asked about it depends on their order.

* `Store.files_ofList` — files at different places are stored one after the other;
* `Store.get?_eq_some_iff` — what is found under a key is what is stored there;
* `Store.toFileSystem_ofList_perm` — so stores that are filled in different orders are the same file
  system.
-/

set_option autoImplicit false

namespace LuaBundle

namespace Store

variable {s s' : Store} {p : Path}

theorem put_of_notMem {key : Path} {files : List (Path × String)}
    (h : key ∉ files.map (·.1)) (text : String) :
    put key text files = files ++ [(key, text)] := by
  induction files with
  | nil => rfl
  | cons f files ih =>
    obtain ⟨hne, hrest⟩ : key ≠ f.1 ∧ key ∉ files.map (·.1) := by simpa using h
    rw [put, if_neg (Ne.symm hne), ih hrest]
    rfl

/-- Files at different places are stored one after the other. -/
theorem files_ofList {l : List (Path × String)} (h : (l.map (·.1.normalize)).Nodup) :
    (ofList l).files = l.map fun f => (f.1.normalize, f.2) := by
  induction l using List.reverseRecOn with
  | nil => rfl
  | append_singleton l f ih =>
    rw [List.map_append, List.map_singleton, List.nodup_append] at h
    obtain ⟨hl, -, hapart⟩ := h
    have hnew : f.1.normalize ∉ (l.map fun f => (f.1.normalize, f.2)).map (·.1) := by
      rw [List.map_map]
      exact fun hmem => hapart _ hmem _ (List.mem_singleton_self _) rfl
    rw [ofList, List.foldl_append, ← ofList, List.foldl_cons, List.foldl_nil, insert, ih hl,
      put_of_notMem hnew, List.map_append]
    rfl

/-- What is found under a key is what is stored there. -/
theorem get?_eq_some_iff (h : (s.files.map (·.1)).Nodup) {text : String} :
    s.get? p = some text ↔ (p.normalize, text) ∈ s.files := by
  rw [get?, Option.map_eq_some_iff]
  constructor
  · rintro ⟨⟨key, text'⟩, hfind, rfl⟩
    obtain rfl : key = p.normalize := by simpa using List.find?_some hfind
    exact List.mem_of_find?_eq_some hfind
  · intro hmem
    obtain ⟨f, hf⟩ : ∃ f, s.files.find? (·.1 == p.normalize) = some f :=
      Option.isSome_iff_exists.1 (List.find?_isSome.2 ⟨_, hmem, by simp⟩)
    have hkey : f.1 = p.normalize := by simpa using List.find?_some hf
    have he := List.inj_on_of_nodup_map h (List.mem_of_find?_eq_some hf) hmem hkey
    exact ⟨f, hf, by rw [he]⟩

theorem get?_eq_of_perm (hp : s.files.Perm s'.files) (h : (s.files.map (·.1)).Nodup) (p : Path) :
    s.get? p = s'.get? p := by
  have h' : (s'.files.map (·.1)).Nodup := (hp.map _).nodup_iff.1 h
  refine Option.ext fun text => ?_
  rw [get?_eq_some_iff h, get?_eq_some_iff h', hp.mem_iff]

theorem isDirectory_eq_of_perm (hp : s.files.Perm s'.files) (p : Path) :
    s.isDirectory p = s'.isDirectory p :=
  hp.any_eq

/-- Stores that answer alike are the same file system. -/
theorem toFileSystem_eq (hget : ∀ p, s.get? p = s'.get? p)
    (hdir : ∀ p, s.isDirectory p = s'.isDirectory p) : s.toFileSystem = s'.toFileSystem := by
  have hfile : s.isFile = s'.isFile := funext fun p => by rw [isFile, isFile, hget]
  have hhas : s.has = s'.has := funext fun p => by rw [has, has, hfile, hdir]
  have hread : s.read = s'.read := funext fun p => by rw [read, read, hget]
  rw [toFileSystem, toFileSystem, FileSystem.mk.injEq]
  exact ⟨hhas, hfile, hread⟩

/-- **The order of insertion does not matter** for files at different places. -/
theorem toFileSystem_ofList_perm {l l' : List (Path × String)} (hp : l.Perm l')
    (h : (l.map (·.1.normalize)).Nodup) :
    (ofList l).toFileSystem = (ofList l').toFileSystem := by
  have hfiles := files_ofList h
  have hperm : (ofList l).files.Perm (ofList l').files := by
    rw [hfiles, files_ofList ((hp.map _).nodup_iff.1 h)]
    exact hp.map _
  have hkeys : ((ofList l).files.map (·.1)).Nodup := by
    rwa [hfiles, List.map_map]
  exact toFileSystem_eq (get?_eq_of_perm hperm hkeys) (isDirectory_eq_of_perm hperm)

end Store

end LuaBundle
