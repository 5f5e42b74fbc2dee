import LuaBundle.Notice
import LuaBundle.Proofs.RequireGraph.Cycles

/-!
# The arrows of a message

A message about a circle shows its members in the order of the nodes, the first of them again at the
end, and an arrow between each two that follow each other.  The order of the nodes is not made from
the requires, so an arrow need not be one of them.

* `Proper.transGen_inside` — members of a circle lead to each other without leaving it;
* `edge_of_transGen_inside` — where there are only two of them, one requires the other;
* `arrows_of_cycles` — so an arrow stands for a chain of requires inside of the circle, and for a
  single one in circles of one or two modules;
* `arrows_of_ring` — three modules that require each other in turn are shown against their requires.
-/

set_option autoImplicit false

namespace LuaBundle

open Relation

namespace RequireGraph

variable {g : RequireGraph} {c : List Path} {a b : Path}

/-- What a message shows of a circle: its members and the first of them again. -/
def shown (members : List Path) : List Path :=
  members ++ members.take 1

theorem cycleText_eq (members : List Path) :
    cycleText members = " -> ".intercalate ((shown members).map Path.text) := rfl

theorem mem_shown {x : Path} (hx : x ∈ shown c) : x ∈ c :=
  (List.mem_append.1 hx).elim id List.mem_of_mem_take

/-! ## Chains inside of a circle -/

/-- A member of a circle requires another. -/
def EdgeInside (g : RequireGraph) (c : List Path) (a b : Path) : Prop :=
  g.Edge a b ∧ a ∈ c ∧ b ∈ c

/-- **Members of a circle lead to each other inside of it**: what a walk between them passes leads
to its end and is led to by its start, so it is a member too. -/
theorem Proper.transGen_inside (h : g.Proper) (hc : c ∈ g.cycles) (ha : a ∈ c) (hb : b ∈ c) :
    TransGen (g.EdgeInside c) a b := by
  obtain ⟨r, _, hmem⟩ := h.exists_of_mem_cycles hc
  obtain ⟨hra, har⟩ := (hmem a).1 ha
  obtain ⟨hrb, hbr⟩ := (hmem b).1 hb
  have hab : g.Leads a b := har.trans hrb
  clear har
  induction hab using TransGen.head_induction_on with
  | single he => exact .single ⟨he, ha, hb⟩
  | @head a x he hxb ih =>
    have hrx : g.Leads r x := hra.tail he
    have hx : x ∈ c := (hmem x).2 ⟨hrx, hxb.trans hbr⟩
    exact .head ⟨he, ha, hx⟩ (ih hx hrx)

/-- Between the only two members of a circle a chain of requires has one from the first to the
second. -/
theorem edge_of_transGen_inside (honly : ∀ x ∈ c, x = a ∨ x = b)
    (hab : TransGen (g.EdgeInside c) a b) : g.Edge a b := by
  by_contra hno
  -- then no chain from `a` gets away from `a`
  have hstay : ∀ x, TransGen (g.EdgeInside c) a x → g.Edge a a ∧ x = a := by
    have hstep : ∀ x, g.EdgeInside c a x → g.Edge a a ∧ x = a := by
      rintro x ⟨he, _, hx⟩
      rcases honly x hx with rfl | rfl
      · exact ⟨he, rfl⟩
      · exact absurd he hno
    intro x hax
    induction hax with
    | single he => exact hstep _ he
    | tail _ he ih => exact hstep _ (ih.2 ▸ he)
  obtain ⟨haa, rfl⟩ := hstay b hab
  exact hno haa

/-! ## The message -/

/-- **An arrow stands for a chain of requires** that does not leave the circle.  In circles of one
or two modules it stands for a single one. -/
theorem arrows_of_cycles {ms : List Module} (hc : c ∈ (ofModules ms).cycles) :
    cycleText c = " -> ".intercalate ((shown c).map Path.text) ∧ 2 ≤ (shown c).length ∧
      (shown c).IsChain (TransGen ((ofModules ms).EdgeInside c)) ∧
      (c.length ≤ 2 → (shown c).IsChain (ofModules ms).Edge) := by
  have h := proper_ofModules ms
  have hlead : ∀ a ∈ c, ∀ b ∈ c, TransGen ((ofModules ms).EdgeInside c) a b :=
    fun a ha b hb => h.transGen_inside hc ha hb
  have hpos : 0 < c.length := by
    obtain ⟨a, ha, _⟩ := h.exists_of_mem_cycles hc
    exact List.length_pos_of_mem ha
  refine ⟨cycleText_eq c, ?_, ?_, fun hlen => ?_⟩
  · rw [shown, List.length_append, List.length_take]
    omega
  · refine (List.pairwise_of_forall_mem_list fun a ha b hb => ?_).isChain
    exact hlead a (mem_shown ha) b (mem_shown hb)
  · match c, hpos, hlen with
    | [a], _, _ =>
      have haa := edge_of_transGen_inside (b := a) (by simp) (hlead a (by simp) a (by simp))
      simpa [shown] using haa
    | [a, b], _, _ =>
      have hab := edge_of_transGen_inside (by simp) (hlead a (by simp) b (by simp))
      have hba := edge_of_transGen_inside (by simp [or_comm]) (hlead b (by simp) a (by simp))
      simpa [shown] using ⟨hab, hba⟩

/-- Two modules that require each other, as a walk from a third one finds them. -/
def pair : List Module := [
  { name := "b", path := ⟨"b.lua"⟩, requires := [⟨"a.lua"⟩] },
  { name := "a", path := ⟨"a.lua"⟩, requires := [⟨"b.lua"⟩] },
  { name := "main", path := ⟨"main.lua"⟩, requires := [⟨"a.lua"⟩] }]

theorem arrows_of_pair :
    [⟨"b.lua"⟩, ⟨"a.lua"⟩] ∈ (ofModules pair).cycles ∧
      (shown [⟨"b.lua"⟩, ⟨"a.lua"⟩]).IsChain (ofModules pair).Edge := by
  have hc : [⟨"b.lua"⟩, ⟨"a.lua"⟩] ∈ (ofModules pair).cycles := by decide +kernel
  exact ⟨hc, (arrows_of_cycles hc).2.2.2 (by decide)⟩

/-- Three modules that require each other in turn, `a` the next `b`, `b` the next `c` and `c` again
`a`, as a walk from a fourth one finds them. -/
def ring : List Module := [
  { name := "c", path := ⟨"c.lua"⟩, requires := [⟨"a.lua"⟩] },
  { name := "b", path := ⟨"b.lua"⟩, requires := [⟨"c.lua"⟩] },
  { name := "a", path := ⟨"a.lua"⟩, requires := [⟨"b.lua"⟩] },
  { name := "main", path := ⟨"main.lua"⟩, requires := [⟨"a.lua"⟩] }]

/-- **No arrow need be a require**: all of those that are shown of the ring go against it. -/
theorem arrows_of_ring :
    (ofModules ring).cycles = [[⟨"c.lua"⟩, ⟨"b.lua"⟩, ⟨"a.lua"⟩]] ∧
      cycleText [⟨"c.lua"⟩, ⟨"b.lua"⟩, ⟨"a.lua"⟩] = "c.lua -> b.lua -> a.lua -> c.lua" ∧
      (shown [⟨"c.lua"⟩, ⟨"b.lua"⟩, ⟨"a.lua"⟩]).IsChain
        fun x y => ¬ (ofModules ring).Edge x y ∧ (ofModules ring).Edge y x := by
  decide +kernel

end RequireGraph

end LuaBundle
