import FrameGraph.Graph
import FrameGraph.Log

/-!
# Passes

The running side of a node: its ports by name, the physical resources bound to them, and the
commands it records for a frame.
-/

namespace FrameGraph

/-- A physical resource of a compiled plan. -/
abbrev BucketId := Nat

/-- What a pass records while it runs. -/
inductive Command
  | beginPass (name : String) (frame : Nat)
  | read (port : String) (resource : BucketId)
  | write (port : String) (resource : BucketId)
  | endPass
  deriving DecidableEq, Repr

/-- The commands of one frame. -/
abbrev Frame := List Command

namespace Frame

/-- The names of the passes recorded, in order. -/
def passNames (f : Frame) : List String :=
  f.filterMap fun
    | .beginPass name _ => some name
    | _ => none

end Frame

inductive PassError
  | missingResource (node port : String) (resource : BucketId)
  | initializationFailed (node reason : String)
  deriving DecidableEq, Repr

namespace PassError

def message : PassError → String
  | missingResource node port resource =>
    s!"node '{node}' port '{port}' is bound to missing resource {resource}"
  | initializationFailed node reason => s!"node '{node}' failed to initialize: {reason}"

end PassError

/-- Resources by the names of ports, ascending by name. -/
abbrev Bindings := List (String × BucketId)

namespace Bindings

def get? (b : Bindings) (port : String) : Option BucketId := b.lookup port

/-- Binds a name, in the place of what it was bound to. -/
def insert (port : String) (resource : BucketId) : Bindings → Bindings
  | [] => [(port, resource)]
  | (name, bound) :: rest =>
    if name = port then (port, resource) :: rest
    else if port < name then (port, resource) :: (name, bound) :: rest
    else (name, bound) :: insert port resource rest

/-- A name is bound to what was bound to it last. -/
@[simp] theorem get?_insert (b : Bindings) (port name : String) (resource : BucketId) :
    (b.insert port resource).get? name = if name = port then some resource else b.get? name := by
  induction b with
  | nil =>
    split
    · next h => simp only [h, insert, get?, List.lookup_cons_self]
    · next h => simp only [insert, get?, List.lookup_cons, beq_false_of_ne h]
  | cons entry rest ih =>
    obtain ⟨first, bound⟩ := entry
    simp only [get?] at ih ⊢
    simp only [insert]
    by_cases hf : first = port
    · subst hf
      simp only [if_true]
      split
      · next h => rw [h, List.lookup_cons_self]
      · next h => simp only [List.lookup_cons, beq_false_of_ne h]
    · simp only [hf, if_false]
      split
      · split
        · next h => rw [h, List.lookup_cons_self]
        · next h => rw [List.lookup_cons, beq_false_of_ne h]
      · by_cases h : name = first
        · subst h
          simp [hf]
        · simp only [List.lookup_cons, beq_false_of_ne h, ih]

end Bindings

structure Pass where
  name : String
  kind : PassKind
  /-- Names and roles of the ports in declaration order. -/
  ports : List (String × Role)
  bindings : Bindings := []
  /-- Why the pass cannot run, if so. -/
  fault : Option PassError := none
  deriving DecidableEq, Repr

namespace Pass

def ofNode (n : Node) : Pass :=
  { name := n.name, kind := n.kind, ports := n.ports.map fun p => (p.name, p.role) }

def hasPort (p : Pass) (port : String) : Bool := p.ports.any (·.1 == port)

/-- Binds a resource to a port. A name that is no port of the pass is refused. -/
def bind? (p : Pass) (port : String) (resource : BucketId) : Option Pass :=
  if p.hasPort port then some { p with bindings := p.bindings.insert port resource } else none

/-- The first fault that keeps a pass from running on the given resources: its own, or a bound
resource that is missing. -/
def check (p : Pass) (isPresent : BucketId → Bool) : Except PassError Unit :=
  match p.fault with
  | some fault => .error fault
  | none =>
    match p.bindings.find? fun b => !isPresent b.2 with
    | some (port, resource) => .error (.missingResource p.name port resource)
    | none => .ok ()

/-- What is logged by a pass that can run: its ports without a resource. -/
def unbound (p : Pass) : List Record :=
  (p.ports.filter fun port => (p.bindings.get? port.1).isNone).map fun port =>
    ⟨.debug, .pass, s!"Pass '{p.name}': port '{port.1}' left unbound"⟩

/-- The use of one port, if a resource is bound to it. -/
def command? (p : Pass) (port : String × Role) : Option Command :=
  (p.bindings.get? port.1).map fun resource =>
    match port.2 with
    | .output => .write port.1 resource
    | .input | .unknown => .read port.1 resource

/-- What the pass records for a frame: the uses of its ports in declaration order. -/
def commands (p : Pass) (frame : Nat) : Frame :=
  .beginPass p.name frame :: p.ports.filterMap p.command? ++ [.endPass]

end Pass

/-- How nodes become passes. A node without a pass keeps its place in the execution order, but
nothing runs and nothing is bound for it. -/
abbrev PassFactory := Node → Option Pass

namespace PassFactory

/-- The passes of the catalogue. The scene provider only publishes handles. -/
def standard : PassFactory := fun n =>
  match n.kind with
  | .sceneProvider | .unknown => none
  | _ => some (.ofNode n)

end PassFactory

end FrameGraph
