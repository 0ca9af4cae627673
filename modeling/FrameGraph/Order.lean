import FrameGraph.Compile.Error

/-!
# Execution order

A topological order of nodes that is the same for the same graph: of the nodes that nothing left
waits for, the one with the least id comes first.

The sort works on positions in the list of nodes. Each position has a counter of the links that
still hold it back, and the positions with none are kept ready in ascending order.
-/

namespace FrameGraph

namespace Order

/-- A link between two positions. -/
abbrev Link := Nat × Nat

/-- The edges between listed nodes, as links between their positions. -/
def links (nodes : List Node) (edges : List Edge) : List Link :=
  edges.filterMap fun e =>
    match position? nodes e.start.node, position? nodes e.stop.node with
    | some i, some j => some (i, j)
    | _, _ => none

/-- The positions that wait for `i`, once for each link. -/
def dependents (links : List Link) (i : Nat) : List Nat :=
  (links.filter (·.1 == i)).map (·.2)

/-- Whether position `i` is taken before position `j`: by id, then by position. -/
def before (ids : List NodeId) (i j : Nat) : Bool :=
  let a := ids.getD i 0
  let b := ids.getD j 0
  a < b || (a == b && i < j)

/-- Puts a position among those that are ready. -/
def enqueue (ids : List NodeId) (i : Nat) : List Nat → List Nat
  | [] => [i]
  | j :: js => if before ids i j then i :: j :: js else j :: enqueue ids i js

@[simp] theorem mem_enqueue {ids : List NodeId} {i k : Nat} {js : List Nat} :
    k ∈ enqueue ids i js ↔ k = i ∨ k ∈ js := by
  induction js with
  | nil => simp [enqueue]
  | cons j js ih =>
    simp only [enqueue]
    split
    · simp
    · rw [List.mem_cons, ih, List.mem_cons, or_left_comm]

theorem mem_links {nodes : List Node} {edges : List Edge} {i j : Nat} :
    (i, j) ∈ links nodes edges ↔
      ∃ e ∈ edges, position? nodes e.start.node = some i ∧ position? nodes e.stop.node = some j := by
  simp only [links, List.mem_filterMap]
  refine exists_congr fun e => and_congr_right fun _ => ?_
  split
  · next i' j' hi hj => simp [hi, hj]
  · next h => exact ⟨(nomatch ·), fun ⟨hi, hj⟩ => (h i j hi hj).elim⟩

/-- A sort in progress. -/
structure State where
  /-- The number of links that hold each position back. -/
  waiting : List Nat
  /-- The positions that nothing holds back, first to last. -/
  ready : List Nat
  /-- The positions taken so far. -/
  taken : List Nat := []

namespace State

def start (ids : List NodeId) (links : List Link) : State :=
  let waiting := (List.range ids.length).map fun j => links.countP (·.2 == j)
  let free := (List.range ids.length).filter fun j => waiting.getD j 0 == 0
  ⟨waiting, free.foldl (fun ready i => enqueue ids i ready) [], []⟩

/-- Takes one link away from position `j`, which becomes ready with its last one. -/
def release (ids : List NodeId) (s : State) (j : Nat) : State :=
  let left := s.waiting.getD j 0 - 1
  { s with
    waiting := s.waiting.set j left
    ready := if left = 0 then enqueue ids j s.ready else s.ready }

/-- Takes the first ready position and releases those that wait for it. -/
def step (ids : List NodeId) (links : List Link) (s : State) : State :=
  match s.ready with
  | [] => s
  | i :: ready =>
    (dependents links i).foldl (release ids) { s with ready, taken := s.taken ++ [i] }

/-- Takes positions, as many as there are nodes, or until none is ready. -/
def run (ids : List NodeId) (links : List Link) : (fuel : Nat) → State → State
  | 0, s => s
  | fuel + 1, s => run ids links fuel (s.step ids links)

end State

/-- Drops positions on which no other one left depends, round by round until there are none. -/
def peel (links : List Link) : (fuel : Nat) → (stuck : List Nat) → List Nat
  | 0, stuck => stuck
  | fuel + 1, stuck =>
    let kept := stuck.filter fun i => (dependents links i).any stuck.contains
    if kept.length = stuck.length then stuck else peel links fuel kept

/-- The ids that are reported when some positions stay held back. What is only downstream of a
cycle is peeled off. -/
def cycleMembers (ids : List NodeId) (links : List Link) (waiting : List Nat) : List NodeId :=
  let stuck := (List.range ids.length).filter fun i => waiting.getD i 0 != 0
  let members := peel links ids.length stuck
  (members.map fun i => ids.getD i 0).mergeSort

/-- The finished sort of a list of nodes. -/
def result (nodes : List Node) (edges : List Edge) : State :=
  let ids := nodes.map (·.id)
  let links := links nodes edges
  State.run ids links ids.length (.start ids links)

end Order

/-- Orders nodes so that every edge between two of them runs forward. Edges with an end outside
the list do not count. -/
def inOrder (nodes : List Node) (edges : List Edge) : Except CompileError (List Node) :=
  let done := Order.result nodes edges
  if done.taken.length = nodes.length then .ok (done.taken.filterMap (nodes[·]?))
  else .error (.cycle (Order.cycleMembers (nodes.map (·.id)) (Order.links nodes edges) done.waiting))

end FrameGraph
