import LuaBundle.Proofs.Toml.Tables
import LuaBundle.Toml.Document

/-!
# The tables of documents

The table of a document has its keys in order, and so have the tables directly in it.  A table is
made of entries by inserting them one after the other; what has to be shown is that the tables in a
document are all made in this way, because no table is ever read as a value that holds no others.

* `Reader.Settled` — under each key of the document stands what is no finished table;
* `Reader.Settled.step` — no token changes that;
* `wellKeyed_of_parse?` — the table of a document.
-/

set_option autoImplicit false

namespace LuaBundle.Toml

/-! ## What stands under keys -/

/-- A node that is no finished table; a table is still held as its entries. -/
def Node.IsOpen (n : Node) : Prop :=
  ∀ entries, n ≠ .value (.table entries)

namespace Entries

variable {es es' : Entries} {key : String} {n : Node} {path : List String}

/-- No entry is a finished table. -/
def AllOpen (es : Entries) : Prop :=
  ∀ e ∈ es, e.2.IsOpen

theorem allOpen_nil : AllOpen [] :=
  fun _ h => nomatch h

theorem AllOpen.set (h : es.AllOpen) (hn : n.IsOpen) : (es.set key n).AllOpen := by
  induction es with
  | nil => exact fun e he => List.mem_singleton.1 he ▸ hn
  | cons first es ih =>
    obtain ⟨hfirst, hrest⟩ := List.forall_mem_cons.1 h
    rw [Entries.set]
    split
    · exact List.forall_mem_cons.2 ⟨hn, hrest⟩
    · exact List.forall_mem_cons.2 ⟨hfirst, ih hrest⟩

theorem AllOpen.addValue {origin : Origin} {nested : Bool} (h : es.AllOpen) (hn : n.IsOpen)
    (hadd : addValue n path origin nested es = some es') : es'.AllOpen := by
  unfold Toml.addValue at hadd
  split at hadd
  · simp at hadd
  · split at hadd
    · simp at hadd
    · exact Option.some.inj hadd ▸ h.set hn
  · split at hadd
    all_goals
      simp only [Option.bind_eq_bind, Option.bind_eq_some_iff, Option.pure_def, Option.some.injEq,
        reduceCtorEq] at hadd
    all_goals
      obtain ⟨_, _, rfl⟩ := hadd
      exact h.set nofun

theorem AllOpen.updateAt {f : Entries → Option Entries} (h : es.AllOpen)
    (hf : ∀ {es es' : Entries}, es.AllOpen → f es = some es' → es'.AllOpen)
    (hupdate : updateAt f path es = some es') : es'.AllOpen := by
  unfold Toml.updateAt at hupdate
  split at hupdate
  · exact hf h hupdate
  · split at hupdate
    all_goals
      simp only [Option.bind_eq_bind, Option.bind_eq_some_iff, Option.pure_def, Option.some.injEq,
        reduceCtorEq] at hupdate
    all_goals
      obtain ⟨_, _, rfl⟩ := hupdate
      exact h.set nofun

theorem AllOpen.openTable (h : es.AllOpen) (hopen : openTable key es = some es') :
    es'.AllOpen := by
  unfold Toml.openTable at hopen
  split at hopen
  · exact Option.some.inj hopen ▸ h.set nofun
  · exact Option.some.inj hopen ▸ h.set nofun
  · simp at hopen

theorem AllOpen.openElement (h : es.AllOpen) (hopen : openElement key es = some es') :
    es'.AllOpen := by
  unfold Toml.openElement at hopen
  split at hopen
  · exact Option.some.inj hopen ▸ h.set nofun
  · exact Option.some.inj hopen ▸ h.set nofun
  · simp at hopen

theorem AllOpen.openHeader {isElement : Bool} (h : es.AllOpen)
    (hopen : openHeader isElement path es = some es') : es'.AllOpen := by
  unfold Toml.openHeader at hopen
  split at hopen
  · simp at hopen
  · cases isElement with
    | false => exact h.updateAt AllOpen.openTable hopen
    | true => exact h.updateAt AllOpen.openElement hopen

end Entries

/-! ## Reading a document -/

theorem isOpen_integerNode (n : Int) : (integerNode n).IsOpen := by
  unfold integerNode
  split <;> exact nofun

theorem isOpen_of_integer? {cs : List Char} {n : Node} (h : integer? cs = some n) : n.IsOpen := by
  have hbase : ∀ {base : Nat} {rest : List Char},
      (do return integerNode (numberOf base (← digitRun? base rest))) = some n → n.IsOpen := by
    intro base rest h
    obtain ⟨digits, _, h⟩ := Option.bind_eq_some_iff.1 h
    simp only [Option.pure_def, Option.some.injEq] at h
    rw [← h]
    exact isOpen_integerNode _
  unfold integer? at h
  dsimp only at h
  split at h
  · exact hbase h
  · exact hbase h
  · exact hbase h
  · obtain ⟨digits, _, h⟩ := Option.bind_eq_some_iff.1 h
    split at h
    · simp at h
    · obtain rfl := Option.some.inj h
      exact isOpen_integerNode _

theorem isOpen_of_decimalFloat? {negative : Bool} {cs : List Char} {n : Node}
    (h : decimalFloat? negative cs = some n) : n.IsOpen := by
  unfold decimalFloat? at h
  obtain ⟨power, _, h⟩ := Option.bind_eq_some_iff.1 h
  obtain ⟨digits, _, h⟩ := Option.bind_eq_some_iff.1 h
  extract_lets finish at h
  have hfinish : ∀ places, finish places = some n → n.IsOpen := by
    intro places hplaces
    simp only [finish] at hplaces
    split at hplaces
    · simp at hplaces
    · split at hplaces <;> exact Option.some.inj hplaces ▸ nofun
  split at h
  · split at h
    · simp at h
    · exact hfinish _ h
  · obtain ⟨places, _, h⟩ := Option.bind_eq_some_iff.1 h
    exact hfinish _ h

theorem isOpen_of_float? {cs : List Char} {n : Node} (h : float? cs = some n) : n.IsOpen := by
  unfold float? at h
  dsimp only at h
  split at h
  · exact Option.some.inj h ▸ nofun
  · split at h
    · exact Option.some.inj h ▸ nofun
    · exact isOpen_of_decimalFloat? h

theorem isOpen_of_scalar? {cs : List Char} {n : Node} (h : scalar? cs = some n) : n.IsOpen := by
  unfold scalar? at h
  split at h
  · exact Option.some.inj h ▸ nofun
  split at h
  · exact Option.some.inj h ▸ nofun
  simp only [Option.orElse_eq_or, Option.or_eq_some_iff] at h
  rcases h with h | ⟨_, h | ⟨_, h⟩⟩
  · exact isOpen_of_integer? h
  · exact isOpen_of_float? h
  · obtain ⟨moment, _, h⟩ := Option.map_eq_some_iff.1 h
    exact h ▸ nofun

namespace Reader

variable {r r' : Reader} {n : Node} {frames : List Frame} {tok : Token}

/-- Nothing in the document so far is a finished table. -/
def Settled (r : Reader) : Prop :=
  r.root.AllOpen

theorem Settled.close (h : r.Settled) (hclose : r.close n frames = some r') (hn : n.IsOpen) :
    r'.Settled := by
  unfold Reader.close at hclose
  split at hclose
  · simp at hclose
  · obtain ⟨root, hroot, hr⟩ := Option.bind_eq_some_iff.1 hclose
    cases hr
    exact h.updateAt (fun hes => hes.addValue hn) hroot
  · cases hclose
    exact h
  · obtain ⟨_, _, hr⟩ := Option.bind_eq_some_iff.1 hclose
    cases hr
    exact h

theorem Settled.openValue (h : r.Settled) (hopen : r.openValue frames tok = some r') :
    r'.Settled := by
  unfold Reader.openValue at hopen
  split at hopen
  · exact h.close hopen nofun
  · exact h.close hopen nofun
  · cases hopen
    exact h
  · cases hopen
    exact h
  · split at hopen <;> cases hopen
    exact h
  · split at hopen <;> cases hopen
    exact h
  · simp at hopen

theorem Settled.stepItem (h : r.Settled) (hstep : r.stepItem frames tok = some r') :
    r'.Settled := by
  unfold Reader.stepItem at hstep
  split at hstep
  · cases hstep
    exact h
  · cases hstep
    exact h
  · exact h.close hstep nofun
  · exact h.close hstep nofun
  · obtain ⟨_, _, hr⟩ := Option.bind_eq_some_iff.1 hstep
    cases hr
    exact h
  · exact h.openValue hstep

theorem Settled.stepFilled (h : r.Settled) (hstep : r.stepFilled frames tok = some r') :
    r'.Settled := by
  unfold Reader.stepFilled at hstep
  split at hstep
  · cases hstep
    exact h
  · cases hstep
    exact h
  · cases hstep
    exact h
  · exact h.close hstep nofun
  · exact h.close hstep nofun
  · simp at hstep

theorem Settled.openHeaderLine {isElement : Bool} {key : List String} (h : r.Settled)
    (hopen : r.openHeaderLine isElement key = some r') : r'.Settled := by
  obtain ⟨root, hroot, hr⟩ := Option.bind_eq_some_iff.1 hopen
  cases hr
  exact Entries.AllOpen.openHeader h hroot

theorem Settled.stepSettled (h : r.Settled) (hstep : r.stepSettled tok = some r') :
    r'.Settled := by
  unfold Reader.stepSettled at hstep
  -- at every place a token opens something, or is handed on, or leads to another place
  split at hstep
  all_goals
    first
    | exact h.openHeaderLine hstep
    | exact h.openValue hstep
    | exact h.stepItem hstep
    | exact h.stepFilled hstep
    | exact Option.some.inj hstep ▸ h
    | contradiction
    | obtain ⟨_, _, hstep⟩ := Option.bind_eq_some_iff.1 hstep
      first
      | exact h.openHeaderLine hstep
      | exact Option.some.inj hstep ▸ h

theorem Settled.finishBare {cs : List Char} (h : r.Settled)
    (hfinish : r.finishBare cs frames = some r') : r'.Settled := by
  obtain ⟨n, hn, hclose⟩ := Option.bind_eq_some_iff.1 hfinish
  exact h.close hclose (isOpen_of_scalar? hn)

/-- **No token makes a finished table.** -/
theorem Settled.step (h : r.Settled) (hstep : r.step tok = some r') : r'.Settled := by
  have hfinish : ∀ cs frames, (r.finishBare cs frames >>= (·.stepSettled tok)) = some r' →
      r'.Settled := by
    intro cs frames hboth
    obtain ⟨_, hbare, hsettled⟩ := Option.bind_eq_some_iff.1 hboth
    exact (h.finishBare hbare).stepSettled hsettled
  unfold Reader.step at hstep
  split at hstep
  · exact Option.some.inj hstep ▸ h
  · exact Option.some.inj hstep ▸ h
  · split at hstep
    · exact Option.some.inj hstep ▸ h
    · exact hfinish _ _ hstep
  · exact Option.some.inj hstep ▸ h
  · exact hfinish _ _ hstep
  · exact hfinish _ _ hstep
  · exact h.stepSettled hstep

theorem Settled.foldlM_step {toks : List Token} (h : r.Settled)
    (hsteps : toks.foldlM Reader.step r = some r') : r'.Settled := by
  induction toks generalizing r with
  | nil => exact Option.some.inj hsteps ▸ h
  | cons tok toks ih =>
    rw [List.foldlM_cons] at hsteps
    obtain ⟨next, hstep, hsteps⟩ := Option.bind_eq_some_iff.1 hsteps
    exact ih (h.step hstep) hsteps

theorem Settled.finish? {es : Entries} (h : r.Settled) (hfinish : r.finish? = some es) :
    es.AllOpen := by
  unfold Reader.finish? at hfinish
  split at hfinish
  · exact Option.some.inj hfinish ▸ h
  · exact Option.some.inj hfinish ▸ h
  -- an unquoted value may end with the document
  · obtain ⟨_, hbare, hended⟩ := Option.bind_eq_some_iff.1 hfinish
    have hsettled := h.finishBare hbare
    split at hended
    · exact Option.some.inj hended ▸ hsettled
    · simp at hended
  · obtain ⟨_, hbare, hended⟩ := Option.bind_eq_some_iff.1 hfinish
    have hsettled := h.finishBare hbare
    split at hended
    · exact Option.some.inj hended ▸ hsettled
    · simp at hended
  · simp at hfinish

end Reader

/-! ## Finished tables -/

theorem sorted_of_entriesToTable? {es : Entries} {t : Table} (h : entriesToTable? es = some t) :
    t.Sorted := by
  induction es generalizing t with
  | nil =>
    rw [entriesToTable?] at h
    exact Option.some.inj h ▸ Table.sorted_nil
  | cons e es ih =>
    obtain ⟨key, n⟩ := e
    rw [entriesToTable?] at h
    obtain ⟨rest, hrest, h⟩ := Option.bind_eq_some_iff.1 h
    obtain ⟨v, _, h⟩ := Option.bind_eq_some_iff.1 h
    exact Option.some.inj h ▸ (ih hrest).insert key v

/-- A table is made of its entries, if it stands for no moment. -/
theorem sorted_of_tableValue? {es : Entries} {entries : Table}
    (h : tableValue? es (entriesToTable? es) = some (.table entries)) : entries.Sorted := by
  unfold tableValue? at h
  split at h
  · next n _ =>
    unfold spelledMoment? at h
    split at h <;> simp at h
  · obtain ⟨t, ht, he⟩ := Option.map_eq_some_iff.1 h
    cases he
    exact sorted_of_entriesToTable? ht

/-- The entries of a table that an open node stands for are in order. -/
theorem Node.IsOpen.sorted_of_toValue? {n : Node} {entries : Table} (hn : n.IsOpen)
    (h : n.toValue? = some (.table entries)) : entries.Sorted := by
  cases n with
  | value v =>
    rw [Node.toValue?] at h
    exact absurd (congrArg Node.value (Option.some.inj h)) (hn entries)
  | outOfRange => simp [Node.toValue?] at h
  | array items => simp [Node.toValue?] at h
  | tables elements => simp [Node.toValue?] at h
  | inline es | table _ es =>
    rw [Node.toValue?] at h
    exact sorted_of_tableValue? h

theorem wellKeyed_of_entriesToTable? {es : Entries} {t : Table} (hes : es.AllOpen)
    (h : entriesToTable? es = some t) : t.WellKeyed := by
  refine ⟨sorted_of_entriesToTable? h, fun {k entries} hentries => ?_⟩
  induction es generalizing t with
  | nil =>
    rw [entriesToTable?] at h
    rw [← Option.some.inj h] at hentries
    exact nomatch hentries
  | cons e es ih =>
    obtain ⟨key, n⟩ := e
    obtain ⟨hn, hes⟩ := List.forall_mem_cons.1 hes
    rw [entriesToTable?] at h
    obtain ⟨rest, hrest, h⟩ := Option.bind_eq_some_iff.1 h
    obtain ⟨v, hv, h⟩ := Option.bind_eq_some_iff.1 h
    rw [← Option.some.inj h, Table.get?_insert] at hentries
    split at hentries
    · exact hn.sorted_of_toValue? (hv.trans hentries)
    · exact ih hes hrest hentries

/-- **The table of a document** has its keys in order, and so have the tables in it. -/
theorem wellKeyed_of_parse? {source : String} {t : Table} (h : parse? source = some t) :
    t.WellKeyed := by
  obtain ⟨toks, _, h⟩ := Option.bind_eq_some_iff.1 h
  obtain ⟨r, hr, h⟩ := Option.bind_eq_some_iff.1 h
  obtain ⟨es, hes, h⟩ := Option.bind_eq_some_iff.1 h
  have hstart : ({} : Reader).Settled := Entries.allOpen_nil
  exact wellKeyed_of_entriesToTable? ((hstart.foldlM_step hr).finish? hes) h

end LuaBundle.Toml
