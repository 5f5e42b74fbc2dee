import LuaBundle.FileSystem.Disk
import LuaBundle.Proofs.Path.Parents

/-!
# Following paths on a disk

A path is followed by its pieces, and a piece that stands for no step only asks for a directory.  So
where a path leads to a directory it is its steps that lead there, and its spelling does not matter.

* `follow_steps` and `follow_of_steps` — from pieces to steps and back;
* `IsTree.exists_of_follow_file` — the last step to a file is its name, and the steps before it lead
  to its directory;
* `stat_child` — what is at a child of a path is what has the name in the directory of the path;
* `IsTree.stat_sibling` — so what is beside a file is found through the parent of every path that
  names the file.
-/

set_option autoImplicit false

namespace LuaBundle

namespace Disk

variable {d : Disk} {loc loc' : Location} {move : Option Step} {moves more : List (Option Step)}
  {p dir : Path} {n : String}

/-! ## One step and several -/

theorem follow_cons_eq_ok_iff : d.follow loc (move :: moves) = .ok loc' ↔
    ∃ next, d.enter loc move = .ok next ∧ d.follow next moves = .ok loc' := by
  rw [follow]
  cases d.enter loc move with
  | error e => exact ⟨nofun, nofun⟩
  | ok next => exact ⟨fun h => ⟨next, rfl, h⟩, fun ⟨_, hnext, h⟩ => Except.ok.inj hnext ▸ h⟩

theorem follow_append {mid : Location} (h : d.follow loc moves = .ok mid) :
    d.follow loc (moves ++ more) = d.follow mid more := by
  induction moves generalizing loc with
  | nil => rw [List.nil_append, Except.ok.inj h]
  | cons move moves ih =>
    obtain ⟨next, henter, h⟩ := follow_cons_eq_ok_iff.1 h
    rw [List.cons_append, follow, henter]
    exact ih h

theorem exists_of_follow_append (h : d.follow loc (moves ++ more) = .ok loc') :
    ∃ mid, d.follow loc moves = .ok mid ∧ d.follow mid more = .ok loc' := by
  induction moves generalizing loc with
  | nil => exact ⟨loc, rfl, h⟩
  | cons move moves ih =>
    obtain ⟨next, henter, h⟩ := follow_cons_eq_ok_iff.1 h
    obtain ⟨mid, hmid, h⟩ := ih h
    exact ⟨mid, follow_cons_eq_ok_iff.2 ⟨next, henter, hmid⟩, h⟩

/-- Steps are taken from directories only. -/
theorem isDirectory_of_enter (h : d.enter loc move = .ok loc') :
    d.node? loc = some .directory := by
  unfold enter at h
  split at h
  · assumption
  · simp at h
  · simp at h

theorem enter_none (h : d.node? loc = some .directory) : d.enter loc none = .ok loc := by
  rw [enter, h]

theorem enter_name (h : d.node? loc = some .directory) (hlength : n.utf8ByteSize ≤ maxNameLength) :
    d.enter loc (some (.name n)) =
      if (d.node? (loc ++ [n])).isSome then .ok (loc ++ [n]) else .error .notFound := by
  rw [enter, h]
  exact if_neg (Nat.not_lt.2 hlength)

/-- Only a directory leads to a directory. -/
theorem isDirectory_of_follow (h : d.follow loc moves = .ok loc')
    (hdir : d.node? loc' = some .directory) : d.node? loc = some .directory := by
  cases moves with
  | nil => exact Except.ok.inj h ▸ hdir
  | cons move moves =>
    obtain ⟨next, henter, _⟩ := follow_cons_eq_ok_iff.1 h
    exact isDirectory_of_enter henter

/-! ## Pieces and steps -/

/-- Without the pieces that stand for no step there is less to ask for. -/
theorem follow_steps (h : d.follow loc moves = .ok loc') :
    d.follow loc ((moves.flatMap Option.toList).map some) = .ok loc' := by
  induction moves generalizing loc with
  | nil => exact h
  | cons move moves ih =>
    obtain ⟨next, henter, hrest⟩ := follow_cons_eq_ok_iff.1 h
    cases move with
    | none =>
      rw [enter_none (isDirectory_of_enter henter)] at henter
      exact Except.ok.inj henter ▸ ih hrest
    | some s => exact follow_cons_eq_ok_iff.2 ⟨next, henter, ih hrest⟩

/-- **Steps that lead to a directory lead there in every spelling.** -/
theorem follow_of_steps (h : d.follow loc ((moves.flatMap Option.toList).map some) = .ok loc')
    (hdir : d.node? loc' = some .directory) : d.follow loc moves = .ok loc' := by
  induction moves generalizing loc with
  | nil => exact h
  | cons move moves ih =>
    cases move with
    | none =>
      have hloc := isDirectory_of_follow h hdir
      exact follow_cons_eq_ok_iff.2 ⟨loc, enter_none hloc, ih h⟩
    | some s =>
      obtain ⟨next, henter, h⟩ := follow_cons_eq_ok_iff.1 h
      exact follow_cons_eq_ok_iff.2 ⟨next, henter, ih h⟩

/-! ## Files and what is beside them -/

/-- What is inside of something is inside of a directory. -/
def IsTree (d : Disk) : Prop :=
  ∀ (loc : Location) (n : String), (d.node? (loc ++ [n])).isSome → d.node? loc = some .directory

theorem node?_concat (d : Disk) (loc : Location) (n : String) :
    d.node? (loc ++ [n]) = (d.nodes.find? (·.1 == loc ++ [n])).map (·.2) := by
  cases loc <;> rfl

theorem isTree_of_nodes (h : ∀ e ∈ d.nodes, d.node? e.1.dropLast = some .directory) : d.IsTree := by
  intro loc n hsome
  rw [node?_concat, Option.isSome_map] at hsome
  obtain ⟨e, hfind⟩ := Option.isSome_iff_exists.1 hsome
  have hplace : e.1 = loc ++ [n] := by simpa using List.find?_some hfind
  have hdir := h e (List.mem_of_find?_eq_some hfind)
  rwa [hplace, List.dropLast_concat] at hdir

theorem IsTree.isDirectory_dropLast (hd : d.IsTree) (h : d.node? loc = some .directory) :
    d.node? loc.dropLast = some .directory := by
  rcases List.eq_nil_or_concat loc with rfl | ⟨init, n, rfl⟩
  · rfl
  · rw [List.concat_eq_append] at h ⊢
    rw [List.dropLast_concat]
    exact hd init n (by rw [h]; rfl)

/-- A step that leads to no directory is a name. -/
theorem IsTree.exists_name_of_enter (hd : d.IsTree) {s : Step} (h : d.enter loc (some s) = .ok loc')
    (hother : d.node? loc' ≠ some .directory) : ∃ n, s = .name n ∧ loc' = loc ++ [n] := by
  have hdir := isDirectory_of_enter h
  unfold enter at h
  rw [hdir] at h
  cases s with
  | here => exact absurd (Except.ok.inj h ▸ hdir) hother
  | root => exact absurd (Except.ok.inj h ▸ rfl) hother
  | up => exact absurd (Except.ok.inj h ▸ hd.isDirectory_dropLast hdir) hother
  | name n =>
    refine ⟨n, rfl, ?_⟩
    dsimp only at h
    split at h
    · simp at h
    · split at h
      · exact (Except.ok.inj h).symm
      · simp at h

/-- **The last step to a file** is its name, and the steps before it lead to its directory. -/
theorem IsTree.exists_of_follow_file (hd : d.IsTree) {steps : List Step} {s : Step}
    {content : ByteArray} (h : d.follow loc ((steps ++ [s]).map some) = .ok loc')
    (hfile : d.node? loc' = some (.file content)) :
    ∃ n holder, loc' = holder ++ [n] ∧ d.follow loc (steps.map some) = .ok holder ∧
      d.node? holder = some .directory := by
  rw [List.map_append] at h
  obtain ⟨holder, hholder, h⟩ := exists_of_follow_append h
  obtain ⟨last, henter, h⟩ := follow_cons_eq_ok_iff.1 h
  obtain rfl : last = loc' := Except.ok.inj h
  obtain ⟨n, _, rfl⟩ := hd.exists_name_of_enter henter (by simp [hfile])
  exact ⟨n, holder, rfl, hholder, isDirectory_of_enter henter⟩

/-- What is reported about a place that is found. -/
def statAt (d : Disk) (loc : Location) : Except FileError Node :=
  match d.node? loc with
  | some node => .ok node
  | none => .error .notFound

/-- **What is at a child of a path** whose steps lead to a directory. -/
theorem stat_child (h : d.follow d.workingDirectory (dir.steps.map some) = .ok loc)
    (hdir : d.node? loc = some .directory) (hn : IsFileName n)
    (hlength : n.utf8ByteSize ≤ maxNameLength) (hrefuse : refuse (dir.child n) = .ok ()) :
    d.stat (dir.child n) = d.statAt (loc ++ [n]) := by
  obtain ⟨before, hbefore, hmoves⟩ := Path.moves_child dir hn
  have hfollow := follow_of_steps (hbefore ▸ h) hdir
  have hlocate : d.locate (dir.child n) =
      (d.enter loc (some (.name n)) >>= fun loc => d.follow loc []) := by
    rw [locate, hrefuse, hmoves]
    exact follow_append hfollow
  rw [stat, hlocate, enter_name hdir hlength, statAt]
  cases hnode : d.node? (loc ++ [n]) with
  | none => rfl
  | some node => simp [bind, Except.bind, follow, hnode]

theorem refuse_eq_ok_iff : refuse p = .ok () ↔
    '\x00' ∉ p.text.toList ∧ p.text ≠ "" ∧ p.text.utf8ByteSize < pathLengthLimit := by
  unfold refuse
  split
  · simp_all
  · split
    · simp_all
    · split <;> simp_all

/-- A child of a parent of a path that is not refused is refused only if it is too long. -/
theorem refuse_child (hp : refuse p = .ok ()) (hparent : p.parent? = some dir) (hn : n ≠ "")
    (hnul : '\x00' ∉ n.toList)
    (hlength : p.text.utf8ByteSize + 1 + n.utf8ByteSize < pathLengthLimit) :
    refuse (dir.child n) = .ok () := by
  obtain ⟨rest, hrest⟩ := Path.isPrefix_of_parent? hparent
  have htext : p.text = dir.text ++ String.ofList rest := by
    rw [← String.toList_inj, String.toList_append, String.toList_ofList, hrest]
  obtain ⟨hpnul, _, _⟩ := refuse_eq_ok_iff.1 hp
  rw [htext, String.utf8ByteSize_append] at hlength
  rw [← hrest, List.mem_append, not_or] at hpnul
  rw [refuse_eq_ok_iff, Path.child]
  split
  · refine ⟨?_, by simp [hn], ?_⟩
    · simpa using ⟨hpnul.1, hnul⟩
    · rw [String.utf8ByteSize_append]
      omega
  · refine ⟨?_, by simp [hn], ?_⟩
    · simpa using ⟨hpnul.1, hnul⟩
    · rw [String.utf8ByteSize_append, String.utf8ByteSize_append,
        show "/".utf8ByteSize = 1 from rfl]
      omega

theorem refuse_of_locate (h : d.locate p = .ok loc) : refuse p = .ok () := by
  rw [locate] at h
  cases hp : refuse p with
  | error e => simp [hp, bind, Except.bind] at h
  | ok _ => rfl

theorem follow_of_locate (h : d.locate p = .ok loc) :
    d.follow d.workingDirectory (p.steps.map some) = .ok loc := by
  rw [locate, refuse_of_locate h] at h
  exact follow_steps h

/-- **What is beside a file**, looked for through the parent of a path that names the file. -/
theorem IsTree.stat_sibling (hd : d.IsTree) {content : ByteArray} (hloc : d.locate p = .ok loc)
    (hfile : d.node? loc = some (.file content)) (hparent : p.parent? = some dir)
    (hn : IsFileName n) (hlength : n.utf8ByteSize ≤ maxNameLength)
    (hrefuse : refuse (dir.child n) = .ok ()) :
    d.stat (dir.child n) = d.statAt (loc.dropLast ++ [n]) := by
  obtain ⟨s, hs⟩ := Path.exists_steps_of_parent? hparent
  obtain ⟨m, holder, rfl, hholder, hdir⟩ :=
    hd.exists_of_follow_file (hs ▸ follow_of_locate hloc) hfile
  rw [List.dropLast_concat]
  exact stat_child hholder hdir hn hlength hrefuse

/-! ## Reading -/

/-- Only files are read. -/
theorem isFile_of_read {text : String} (h : d.read p = .ok text) : d.isFile p := by
  simp only [read, bind, Except.bind] at h
  rw [isFile]
  cases hstat : d.stat p with
  | error e => simp [hstat] at h
  | ok node =>
    cases node with
    | directory => simp [hstat] at h
    | file content => rfl

end Disk

end LuaBundle
