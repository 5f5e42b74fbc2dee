import LuaBundle.Module

/-!
# The graph of requires

A `RequireGraph` has one node for every path in a list of modules and an edge from a module to each
module that it requires; requires of paths outside the list are left out.  Nodes are in the order
of the list, edges in the order in which they are met, and neither are repeated.

* `RequireGraph.dependencies` lists what a node requires, in node order.
* `RequireGraph.walkRows` tells which nodes a non-empty walk along edges leads to.  It is worked out
  on the numbers of nodes: `Rows.holds_through` says what one round adds.
* `RequireGraph.cycles` lists the circles: sets of nodes that lead to each other and to
  themselves.  Members are in node order, and so are the circles by their first members.
* `RequireGraph.violations` lists the edges that an order of loading breaks.
-/

set_option autoImplicit false

namespace LuaBundle

/-- Paths and the requires between them. -/
structure RequireGraph where
  nodes : List Path := []
  /-- Pairs of nodes, the requiring one first. -/
  edges : List (Path × Path) := []
  deriving DecidableEq, Repr

namespace RequireGraph

/-- The node of a path. -/
def node? (g : RequireGraph) (p : Path) : Option Path :=
  let place := p.steps
  g.nodes.find? (·.steps == place)

def addNode (g : RequireGraph) (p : Path) : RequireGraph :=
  match g.node? p with
  | some _ => g
  | none => { g with nodes := g.nodes ++ [p] }

/-- Adds the edge between the nodes of two paths, if both have one. -/
def addEdge (g : RequireGraph) (p q : Path) : RequireGraph :=
  match g.node? p, g.node? q with
  | some a, some b => if (a, b) ∈ g.edges then g else { g with edges := g.edges ++ [(a, b)] }
  | _, _ => g

/-- The graph of a list of modules. -/
def ofModules (ms : List Module) : RequireGraph :=
  let g := ms.foldl (fun g m => g.addNode m.path) {}
  ms.foldl (fun g m => m.requires.foldl (fun g q => g.addEdge m.path q) g) g

/-! ## Neighbours and walks -/

/-- The nodes that a node requires, in the order of the edges. -/
def next (g : RequireGraph) (a : Path) : List Path :=
  g.edges.filterMap (fun e => if e.1 = a then some e.2 else none)

/-- What a path requires, in node order. -/
def dependencies (g : RequireGraph) (p : Path) : List Path :=
  match g.node? p with
  | none => []
  | some a =>
    let required := g.next a
    g.nodes.filter (fun b => decide (b ∈ required))

/-- A relation between the numbers of nodes: a row of bits for every node. -/
abbrev Rows := Array Nat

/-- Whether a relation holds between two numbers. -/
def Rows.holds (rows : Rows) (i j : Nat) : Bool :=
  (rows[i]?.getD 0).testBit j

/-- Joins to a relation its steps through one number. -/
def Rows.through (rows : Rows) (k : Nat) : Rows :=
  let further := rows[k]?.getD 0
  rows.map fun row => if row.testBit k then row ||| further else row

theorem Rows.holds_through (rows : Rows) (i j k : Nat) :
    (rows.through k).holds i j = (rows.holds i j || (rows.holds i k && rows.holds k j)) := by
  unfold holds through
  cases h : rows[i]? with
  | none => simp [h]
  | some row => by_cases hk : row.testBit k = true <;> simp [h, hk, Nat.testBit_or]

/-- A row with the given numbers. -/
def bitsOf (numbers : List Nat) : Nat :=
  numbers.foldr (fun n bits => 1 <<< n ||| bits) 0

@[simp] theorem testBit_bitsOf (numbers : List Nat) (j : Nat) :
    (bitsOf numbers).testBit j = decide (j ∈ numbers) := by
  induction numbers with
  | nil => simp [bitsOf]
  | cons n numbers ih =>
    have h : bitsOf (n :: numbers) = 1 <<< n ||| bitsOf numbers := rfl
    simp [h, ih, Nat.testBit_or, Nat.one_shiftLeft, Nat.testBit_two_pow, eq_comm]

/-- The numbers of the nodes that a node requires. -/
def row (g : RequireGraph) (a : Path) : Nat :=
  bitsOf ((g.next a).map g.nodes.idxOf)

/-- What each node requires. -/
def edgeRows (g : RequireGraph) : Rows :=
  (g.nodes.map g.row).toArray

/-- What each node leads to by a non-empty walk.  Walks may pass through more and more nodes, until
they may pass through all of them. -/
def walkRows (g : RequireGraph) : Rows :=
  (List.range g.nodes.length).foldl Rows.through g.edgeRows

/-! ## Cycles -/

def hasCycle (g : RequireGraph) : Bool :=
  let walks := g.walkRows
  (List.range g.nodes.length).any (fun i => walks.holds i i)

/-- The numbers of the nodes that lie on a circle with a node, in order. -/
def circle (g : RequireGraph) (walks : Rows) (i : Nat) : List Nat :=
  (List.range g.nodes.length).filter (fun j => walks.holds i j && walks.holds j i)

/-- The circles of the graph as lists of numbers, each at the place of its first member. -/
def circles (g : RequireGraph) : List (List Nat) :=
  let walks := g.walkRows
  (List.range g.nodes.length).filterMap fun i =>
    let members := g.circle walks i
    if members.head? = some i then some members else none

/-- The circles of the graph. -/
def cycles (g : RequireGraph) : List (List Path) :=
  g.circles.map (·.filterMap (g.nodes[·]?))

/-! ## Orders of loading -/

/-- The last place of a path in a list. -/
def lastPosition? (order : List Path) (p : Path) : Option Nat :=
  let place := p.steps
  (order.reverse.findIdx? (·.steps == place)).map (order.length - 1 - ·)

/-- The edges that an order of loading breaks: both ends occur in it, and what is required does not
come before what requires it. -/
def violations (g : RequireGraph) (order : List Path) : List (Path × Path) :=
  g.edges.filter fun (a, b) =>
    match lastPosition? order a, lastPosition? order b with
    | some i, some j => j ≥ i
    | _, _ => false

end RequireGraph

end LuaBundle
