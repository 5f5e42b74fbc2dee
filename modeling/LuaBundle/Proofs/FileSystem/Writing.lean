import LuaBundle.Proofs.FileSystem.Disk
import LuaBundle.Run
import Mathlib.Logic.Function.Basic

/-!
# What is written to a disk

Of a disk, `Disk.file?` shows the regular files and nothing else.  To make a directory never changes a
file, whether it succeeds or not, and to write a file changes that file only.

* `node?_put` — one place changes at a time;
* `file?_makeDirectories` — making directories leaves the files as they are, also when it fails half
  way;
* `exists_of_write_eq_ok` — a file that was written is found at its path, with its content;
* `Bundle.exists_of_writeTo_eq_ok`, `Bundle.file?_writeTo_of_error` — so a bundle that is written is
  the one change, and one that cannot be written is none.
-/

set_option autoImplicit false

namespace LuaBundle

namespace Disk

variable {d d' : Disk} {loc loc' place : Location} {node : Node} {n : String} {p : Path}
  {content : ByteArray} {moves : List (Option Step)}

/-- The content of a regular file. -/
def Node.content? : Node → Option ByteArray
  | .directory => none
  | .file content => some content

/-- The content of the regular file at a place. -/
def file? (d : Disk) (loc : Location) : Option ByteArray :=
  (d.node? loc).bind Node.content?

/-! ## One place at a time -/

theorem find?_putNode (nodes : List (Location × Node)) :
    ((putNode place node nodes).find? (·.1 == loc)).map (·.2) =
      if loc = place then some node else (nodes.find? (·.1 == loc)).map (·.2) := by
  induction nodes with
  | nil =>
    by_cases h : loc = place
    · simp [putNode, h]
    · simp [putNode, h, Ne.symm h]
  | cons entry nodes ih =>
    rw [putNode]
    by_cases hentry : entry.1 = place
    · rw [if_pos hentry]
      by_cases h : loc = place
      · simp [h, hentry]
      · have hne : entry.1 ≠ loc := fun he => h (he.symm.trans hentry)
        simp [h, hne]
    · rw [if_neg hentry]
      by_cases hloc : entry.1 = loc
      · have hne : loc ≠ place := fun he => hentry (hloc.trans he)
        simp [hloc, hne]
      · simp only [List.find?_cons, beq_eq_false_iff_ne.2 hloc, ih]

/-- **One place changes at a time.** -/
theorem node?_put (d : Disk) (directory : Location) (n : String) (node : Node) :
    (d.put (directory ++ [n]) node).node? loc =
      if loc = directory ++ [n] then some node else d.node? loc := by
  cases loc with
  | nil => simp [node?]
  | cons first rest => exact find?_putNode d.nodes

theorem file?_put_file (d : Disk) (directory : Location) (n : String) (content : ByteArray) :
    (d.put (directory ++ [n]) (.file content)).file? =
      Function.update d.file? (directory ++ [n]) (some content) := by
  funext loc
  rw [file?, node?_put, Function.update_apply]
  by_cases hloc : loc = directory ++ [n]
  · rw [if_pos hloc, if_pos hloc]
    rfl
  · rw [if_neg hloc, if_neg hloc]
    rfl

/-- A directory in an empty place is no change to the files. -/
theorem file?_put_directory {directory : Location} (h : d.node? (directory ++ [n]) = none) :
    (d.put (directory ++ [n]) .directory).file? = d.file? := by
  funext loc
  rw [file?, node?_put]
  by_cases hloc : loc = directory ++ [n]
  · rw [if_pos hloc, hloc, file?, h]
    rfl
  · rw [if_neg hloc]
    rfl

/-! ## Making directories -/

theorem exists_of_makeDirectory_eq_ok (h : d.makeDirectory p = .ok d') :
    ∃ directory n, d.node? (directory ++ [n]) = none ∧
      d' = d.put (directory ++ [n]) .directory := by
  simp only [makeDirectory, bind, Except.bind] at h
  split at h
  · simp at h
  split at h
  · next directory n _ _ =>
    split at h
    · simp at h
    next hentry =>
    split at h
    · simp at h
    next hnone =>
    refine ⟨directory, n, ?_, (Except.ok.inj h).symm⟩
    unfold entry? at hentry
    split at hentry
    · simp at hentry
    · exact Except.ok.inj hentry
  · simp at h

theorem file?_makeDirectory (h : d.makeDirectory p = .ok d') : d'.file? = d.file? := by
  obtain ⟨directory, n, hnone, rfl⟩ := exists_of_makeDirectory_eq_ok h
  exact file?_put_directory hnone

/-- The directories that are made before one of them cannot be made stay, and they are no files. -/
theorem file?_makeChain (d : Disk) (paths : List Path) : (d.makeChain paths).1.file? = d.file? := by
  induction paths generalizing d with
  | nil => rfl
  | cons p parents ih =>
    rw [makeChain]
    split
    · rfl
    split
    · next hmade => exact file?_makeDirectory hmade
    split
    · split
      · next hparents => rw [← ih d, hparents]
      · next above hparents =>
        have habove : above.file? = d.file? := by rw [← ih d, hparents]
        split
        · next hmade => exact (file?_makeDirectory hmade).trans habove
        · exact habove
    · rfl

/-- **Making directories leaves the files as they are.** -/
theorem file?_makeDirectories (d : Disk) (p : Path) : (d.makeDirectories p).1.file? = d.file? :=
  file?_makeChain d _

/-! ## Writing a file -/

/-- Steps can still be taken when something changes that is no directory. -/
theorem enter_put {directory : Location} {move : Option Step}
    (hplace : d.node? (directory ++ [n]) ≠ some .directory) (h : d.enter loc move = .ok loc') :
    (d.put (directory ++ [n]) node).enter loc move = .ok loc' := by
  have hdir := isDirectory_of_enter h
  have hloc : loc ≠ directory ++ [n] := fun he => hplace (he ▸ hdir)
  have hdir' : (d.put (directory ++ [n]) node).node? loc = some .directory := by
    rw [node?_put, if_neg hloc, hdir]
  cases move with
  | none =>
    rw [enter_none hdir] at h
    rw [enter_none hdir', h]
  | some s =>
    unfold enter at h ⊢
    rw [hdir] at h
    rw [hdir']
    cases s with
    | here | root | up => exact h
    | name m =>
      dsimp only at h ⊢
      split at h
      · simp at h
      next hlength =>
      split at h
      · next hsome =>
        have hsome' : ((d.put (directory ++ [n]) node).node? (loc ++ [m])).isSome := by
          rw [node?_put]
          split
          · rfl
          · exact hsome
        rw [if_neg hlength, if_pos hsome', h]
      · simp at h

theorem follow_put {directory : Location} (hplace : d.node? (directory ++ [n]) ≠ some .directory)
    (h : d.follow loc moves = .ok loc') :
    (d.put (directory ++ [n]) node).follow loc moves = .ok loc' := by
  induction moves generalizing loc with
  | nil => exact h
  | cons move moves ih =>
    obtain ⟨next, henter, h⟩ := follow_cons_eq_ok_iff.1 h
    exact follow_cons_eq_ok_iff.2 ⟨next, enter_put hplace henter, ih h⟩

/-- A path whose last piece is a name ends in the step to that name. -/
theorem moves_of_pieces_concat {before : List (List Char)} {last : List Char}
    (hpieces : p.pieces = before ++ [last]) (hlast : Step.ofPiece? last = some (.name n)) :
    p.moves = p.moves.take before.length ++ [some (.name n)] := by
  cases before with
  | nil =>
    have hslash : '/' ∉ last := Path.not_mem_slash_of_mem_pieces (p := p) (by simp [hpieces])
    have htext : last = (Step.name n).text.toList := by
      unfold Step.ofPiece? at hlast
      split at hlast <;> simp at hlast
      simp [Step.text, ← hlast]
    have hfirst := (Step.isPiece_of_ofPiece? hslash hlast).ofFirstPiece? false
    rw [Path.moves, hpieces, htext]
    exact congrArg ([·]) hfirst
  | cons first rest =>
    rw [Path.moves_of_pieces hpieces, hlast]
    simp

/-- A list that is as long as before has not lost its end. -/
theorem reverse_dropWhile_eq {α : Type} {q : α → Bool} {l : List α}
    (h : l.length ≤ (l.reverse.dropWhile q).reverse.length) :
    (l.reverse.dropWhile q).reverse = l := by
  have hsuffix : l.reverse.dropWhile q <:+ l.reverse := List.dropWhile_suffix q
  rw [hsuffix.eq_of_length_le (by simpa using h), List.reverse_reverse]

/-- A place that a path names without a slash behind it. -/
theorem slot_eq_ok {directory : Location}
    (h : d.slot p = .ok { directory, name? := some n, slash := false }) :
    refuse p = .ok () ∧ d.node? directory = some .directory ∧
      ∃ before, p.moves = before ++ [some (.name n)] ∧
        d.follow d.workingDirectory before = .ok directory := by
  unfold slot at h
  simp only [bind, Except.bind] at h
  split at h
  · simp at h
  next hrefuse =>
  split at h
  · simp at h
  next last hlast =>
  split at h
  · simp at h
  next dir hfollow =>
  split at h
  · simp at h
  next henter =>
  split at h
  · next m hpiece =>
    simp only [Except.ok.injEq, Slot.mk.injEq, Option.some.injEq, decide_eq_false_iff_not,
      Nat.not_lt] at h
    obtain ⟨rfl, rfl, hlength⟩ := h
    rw [reverse_dropWhile_eq hlength] at hlast hfollow
    obtain ⟨before, hpieces⟩ := List.getLast?_eq_some_iff.1 hlast
    rw [hpieces, List.length_append, List.length_singleton, Nat.add_sub_cancel] at hfollow
    exact ⟨hrefuse, isDirectory_of_enter henter, _, moves_of_pieces_concat hpieces hpiece, hfollow⟩
  · simp at h

theorem entry?_eq_ok_iff {directory : Location} {node? : Option Node} :
    d.entry? directory n = .ok node? ↔
      n.utf8ByteSize ≤ maxNameLength ∧ d.node? (directory ++ [n]) = node? := by
  unfold entry?
  split
  · next h => simp [Nat.not_le.2 h]
  · next h => simp [Nat.not_lt.1 h]

/-- A file can be found in the place where it was put. -/
theorem locate_put {directory : Location} {before : List (Option Step)}
    (hrefuse : refuse p = .ok ()) (hmoves : p.moves = before ++ [some (.name n)])
    (hbefore : d.follow d.workingDirectory before = .ok directory)
    (hdir : d.node? directory = some .directory) (hlength : n.utf8ByteSize ≤ maxNameLength)
    (hplace : d.node? (directory ++ [n]) ≠ some .directory) :
    (d.put (directory ++ [n]) node).locate p = .ok (directory ++ [n]) := by
  have hdir' : (d.put (directory ++ [n]) node).node? directory = some .directory := by
    rw [node?_put, if_neg (by simp), hdir]
  have hentered : (d.put (directory ++ [n]) node).follow directory [some (.name n)] =
      .ok (directory ++ [n]) := by
    refine follow_cons_eq_ok_iff.2 ⟨directory ++ [n], ?_, rfl⟩
    rw [enter_name hdir' hlength, node?_put, if_pos rfl]
    rfl
  rw [locate, hrefuse, hmoves]
  exact (follow_append (follow_put hplace hbefore)).trans hentered

/-- **A file that was written** is found at its path with its content, and nothing else changed. -/
theorem exists_of_write_eq_ok (h : d.write p content = .ok d') :
    ∃ loc, d'.locate p = .ok loc ∧ d'.file? = Function.update d.file? loc (some content) := by
  simp only [write, bind, Except.bind] at h
  split at h
  · simp at h
  next hslot =>
  split at h
  · next directory n =>
    obtain ⟨hrefuse, hdir, before, hmoves, hbefore⟩ := slot_eq_ok hslot
    split at h
    · simp at h
    next hentry =>
    obtain ⟨hlength, hnode⟩ := entry?_eq_ok_iff.1 hentry
    split at h
    · simp at h
    next hplace =>
    obtain rfl := Except.ok.inj h
    have hplace : d.node? (directory ++ [n]) ≠ some .directory := hnode ▸ hplace
    exact ⟨directory ++ [n], locate_put hrefuse hmoves hbefore hdir hlength hplace,
      file?_put_file d directory n content⟩
  · simp at h

end Disk

/-! ## Writing a bundle -/

namespace Bundle

variable {b : Bundle} {output : Path} {d : Disk}

/-- The directories that a bundle is written into are made first. -/
theorem exists_writeTo_eq (b : Bundle) (output : Path) (d : Disk) :
    ∃ above : Disk, above.file? = d.file? ∧
      ((∃ fault, b.writeTo output d = (above, Logged.fail fault)) ∨
        ∃ written notice, above.write output b.source.toUTF8 = .ok written ∧
          b.writeTo output d = (written, Logged.note notice)) := by
  unfold writeTo
  dsimp only
  generalize hmade : (if (output.parent?.getD ⟨""⟩).text.isEmpty then (d, none)
    else d.makeDirectories (output.parent?.getD ⟨""⟩)) = made
  obtain ⟨above, failure?⟩ := made
  refine ⟨above, ?_, ?_⟩
  · split at hmade
    · rw [(Prod.mk.inj hmade).1]
    · rw [← Disk.file?_makeDirectories d, hmade]
  · cases failure? with
    | some e => exact .inl ⟨_, rfl⟩
    | none =>
      dsimp only
      cases hwrite : above.write output b.source.toUTF8 with
      | error e => exact .inl ⟨_, rfl⟩
      | ok written => exact .inr ⟨written, _, rfl, rfl⟩

/-- **A bundle that cannot be written** changes no file. -/
theorem file?_writeTo_of_error {fault : WriteFault}
    (h : (b.writeTo output d).2.result = .error fault) :
    (b.writeTo output d).1.file? = d.file? := by
  obtain ⟨above, habove, ⟨fault', he⟩ | ⟨written, notice, _, he⟩⟩ := exists_writeTo_eq b output d
  · rw [he, habove]
  · simp [he] at h

/-- **A bundle that is written** is in the file that its path then names, and nothing else
changed. -/
theorem exists_of_writeTo_eq_ok (h : (b.writeTo output d).2.result = .ok ()) :
    ∃ loc, (b.writeTo output d).1.locate output = .ok loc ∧
      (b.writeTo output d).1.file? = Function.update d.file? loc (some b.source.toUTF8) := by
  obtain ⟨above, habove, ⟨fault', he⟩ | ⟨written, notice, hwrite, he⟩⟩ :=
    exists_writeTo_eq b output d
  · simp [he] at h
  · obtain ⟨loc, hloc, hfile⟩ := Disk.exists_of_write_eq_ok hwrite
    rw [he]
    exact ⟨loc, hloc, habove ▸ hfile⟩

end Bundle

end LuaBundle
