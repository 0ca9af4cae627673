import FrameGraph.Compile.Error
import FrameGraph.Proofs.Editor.WellFormed
import FrameGraph.Proofs.Order.Positions
import FrameGraph.Proofs.Reachability
import Mathlib.Data.Set.Function

/-!
# Other numbers for the same graph

A snapshot may be given other ids. What is asked of them is that they tell apart what the old ones
told apart, and that nodes keep the order of their ids (`Renumbers`); they need not be unique, and
edges may name what is not there. The snapshot under other ids then has its scene provider in the
same place, and keeps the same nodes (`reachable_renumber`).
-/

namespace FrameGraph

open Relation

/-! ## Other ids -/

section

variable (ρ : Nat → Nat)

def Port.renumber (p : Port) : Port := { p with id := ρ p.id }

def Node.renumber (n : Node) : Node := { n with id := ρ n.id, ports := n.ports.map (.renumber ρ) }

def Endpoint.renumber (e : Endpoint) : Endpoint := { e with node := ρ e.node, port := ρ e.port }

def Edge.renumber (e : Edge) : Edge :=
  { e with id := ρ e.id, start := e.start.renumber ρ, stop := e.stop.renumber ρ }

/-- The error with the ids of the nodes that it names. -/
def CompileError.renumber : CompileError → CompileError
  | .cycle nodes => .cycle (nodes.map ρ)
  | err => err

/-- An id that a snapshot gives to a node or a port, or by which an edge names one. -/
inductive Numbered (nodes : List Node) (edges : List Edge) : Nat → Prop
  | node {n : Node} : n ∈ nodes → Numbered nodes edges n.id
  | port {n : Node} {p : Port} : n ∈ nodes → p ∈ n.ports → Numbered nodes edges p.id
  | startNode {e : Edge} : e ∈ edges → Numbered nodes edges e.start.node
  | startPort {e : Edge} : e ∈ edges → Numbered nodes edges e.start.port
  | stopNode {e : Edge} : e ∈ edges → Numbered nodes edges e.stop.node
  | stopPort {e : Edge} : e ∈ edges → Numbered nodes edges e.stop.port

/-- Ids that serve a snapshot as its own do. -/
structure Renumbers (nodes : List Node) (edges : List Edge) : Prop where
  apart : Set.InjOn ρ {id | Numbered nodes edges id}
  ascending : ∀ m ∈ nodes, ∀ n ∈ nodes, m.id < n.id → ρ m.id < ρ n.id

end

section

variable {ρ : Nat → Nat}

@[simp] theorem Node.id_renumber (n : Node) : (n.renumber ρ).id = ρ n.id := rfl

@[simp] theorem Node.ports_renumber (n : Node) :
    (n.renumber ρ).ports = n.ports.map (.renumber ρ) := rfl

theorem Node.outputs_renumber (n : Node) :
    (n.renumber ρ).outputs = n.outputs.map (.renumber ρ) := List.filter_map ..

end

variable {ρ : Nat → Nat} {nodes : List Node} {edges : List Edge}

namespace Numbered

theorem mono {kept : List Node} (hsub : kept ⊆ nodes) {id : Nat} (h : Numbered kept edges id) :
    Numbered nodes edges id := by
  cases h with
  | node hn => exact .node (hsub hn)
  | port hn hp => exact .port (hsub hn) hp
  | startNode he => exact .startNode he
  | startPort he => exact .startPort he
  | stopNode he => exact .stopNode he
  | stopPort he => exact .stopPort he

end Numbered

namespace Renumbers

theorem of_subset {kept : List Node} (h : Renumbers ρ nodes edges) (hsub : kept ⊆ nodes) :
    Renumbers ρ kept edges where
  apart := h.apart.mono fun _ hid => hid.mono hsub
  ascending m hm n hn := h.ascending m (hsub hm) n (hsub hn)

theorem eq_iff (h : Renumbers ρ nodes edges) {a b : Nat} (ha : Numbered nodes edges a)
    (hb : Numbered nodes edges b) : ρ a = ρ b ↔ a = b := h.apart.eq_iff ha hb

theorem beq_eq (h : Renumbers ρ nodes edges) {a b : Nat} (ha : Numbered nodes edges a)
    (hb : Numbered nodes edges b) : (ρ a == ρ b) = (a == b) := by
  rw [Bool.eq_iff_iff, beq_iff_eq, beq_iff_eq, h.eq_iff ha hb]

theorem isAt_eq (h : Renumbers ρ nodes edges) {x : Endpoint} (hnode : Numbered nodes edges x.node)
    (hport : Numbered nodes edges x.port) {a b : Nat} (ha : Numbered nodes edges a)
    (hb : Numbered nodes edges b) : (x.renumber ρ).isAt (ρ a) (ρ b) = x.isAt a b := by
  unfold Endpoint.isAt
  rw [← h.beq_eq hnode ha, ← h.beq_eq hport hb]
  rfl

/-- Nodes keep the order of their ids. -/
theorem lt_iff (h : Renumbers ρ nodes edges) {m n : Node} (hm : m ∈ nodes) (hn : n ∈ nodes) :
    ρ m.id < ρ n.id ↔ m.id < n.id := by
  refine ⟨fun hlt => ?_, h.ascending m hm n hn⟩
  by_contra hnot
  rcases Nat.lt_or_eq_of_le (Nat.le_of_not_lt hnot) with hgt | heq
  · exact Nat.lt_asymm hlt (h.ascending n hn m hm hgt)
  · exact Nat.ne_of_lt hlt (congrArg ρ heq.symm)

end Renumbers

/-! ## What the scene provider feeds -/

theorem lastIndex?_map {α β : Type} [DecidableEq α] [DecidableEq β] {f : α → β} {a : α}
    {xs : List α} (h : ∀ x ∈ xs, f x = f a → x = a) :
    lastIndex? (f a) (xs.map f) = lastIndex? a xs := by
  induction xs with
  | nil => rfl
  | cons x xs ih =>
    have hx : f x = f a ↔ x = a := ⟨h x List.mem_cons_self, congrArg f⟩
    rw [List.map_cons, lastIndex?, lastIndex?, ih fun y hy => h y (List.mem_cons_of_mem _ hy)]
    simp only [hx]

theorem position?_renumber (h : Renumbers ρ nodes edges) {id : NodeId}
    (hid : Numbered nodes edges id) :
    position? (nodes.map (.renumber ρ)) (ρ id) = position? nodes id := by
  have hids : (nodes.map (Node.renumber ρ)).map (·.id) = (nodes.map (·.id)).map ρ := by
    rw [List.map_map, List.map_map]
    rfl
  rw [position?, hids]
  refine lastIndex?_map fun a ha heq => ?_
  obtain ⟨n, hn, rfl⟩ := List.mem_map.mp ha
  exact h.apart (.node hn) hid heq

theorem root_renumber (nodes : List Node) :
    root (nodes.map (.renumber ρ)) = (root nodes).map ρ := by
  have hroots : (nodes.map (Node.renumber ρ)).filter (·.kind == .sceneProvider) =
      (nodes.filter (·.kind == .sceneProvider)).map (.renumber ρ) := List.filter_map ..
  unfold root
  rw [hroots]
  generalize nodes.filter (·.kind == .sceneProvider) = roots
  match roots with
  | [] => rfl
  | [_] => rfl
  | _ :: _ :: _ => simp only [Except.map, List.map_cons, List.length_cons, List.length_map]

namespace Reachability

theorem arc_renumber (h : Renumbers ρ nodes edges) {a : NodeId} (ha : Numbered nodes edges a)
    {b' : NodeId} :
    Arc (edges.map (.renumber ρ)) (ρ a) b' ↔
      ∃ b, Numbered nodes edges b ∧ Arc edges a b ∧ ρ b = b' := by
  constructor
  · rintro ⟨e', he', hstart, rfl⟩
    obtain ⟨e, he, rfl⟩ := List.mem_map.mp he'
    exact ⟨_, .stopNode he, ⟨e, he, h.apart (.startNode he) ha hstart, rfl⟩, rfl⟩
  · rintro ⟨b, -, ⟨e, he, rfl, rfl⟩, rfl⟩
    exact ⟨_, List.mem_map_of_mem he, rfl, rfl⟩

/-- What can be reached under other ids is what could be reached. -/
theorem reached_renumber (h : Renumbers ρ nodes edges) {a : NodeId} (ha : Numbered nodes edges a)
    {b : NodeId} (hb : Numbered nodes edges b) :
    ReflTransGen (Arc (edges.map (.renumber ρ))) (ρ a) (ρ b) ↔ ReflTransGen (Arc edges) a b := by
  constructor
  · intro hreached
    have hcome : ∀ {c'}, ReflTransGen (Arc (edges.map (.renumber ρ))) (ρ a) c' →
        ∃ c, Numbered nodes edges c ∧ ReflTransGen (Arc edges) a c ∧ ρ c = c' := by
      intro c' hc'
      induction hc' with
      | refl => exact ⟨a, ha, .refl, rfl⟩
      | tail _ harc ih =>
        obtain ⟨c, hc, hac, rfl⟩ := ih
        obtain ⟨d, hd, hcd, rfl⟩ := (arc_renumber h hc).mp harc
        exact ⟨d, hd, hac.tail hcd, rfl⟩
    obtain ⟨c, hc, hac, heq⟩ := hcome hreached
    exact h.apart hc hb heq ▸ hac
  · intro hreached
    refine hreached.lift ρ fun c d hcd => ?_
    obtain ⟨e, he, rfl, rfl⟩ := hcd
    exact ⟨_, List.mem_map_of_mem he, rfl, rfl⟩

end Reachability

open Reachability

/-- The same nodes are kept, under their other ids, or the same error is found. -/
theorem reachable_renumber (h : Renumbers ρ nodes edges) :
    reachable (nodes.map (.renumber ρ)) (edges.map (.renumber ρ)) =
      (reachable nodes edges).map (·.map (.renumber ρ)) := by
  unfold reachable
  rw [root_renumber]
  cases hroot : root nodes with
  | error err => rfl
  | ok start =>
    have hstart : Numbered nodes edges start := by
      rcases root_cases nodes with ⟨-, herror⟩ | ⟨n, hn, -, hok⟩ | ⟨-, herror⟩
      · cases herror.symm.trans hroot
      · cases hok.symm.trans hroot
        exact .node (List.mem_of_mem_filter (hn ▸ List.mem_singleton_self n))
      · cases herror.symm.trans hroot
    refine congrArg Except.ok ?_
    change (nodes.map _).filter _ = List.map _ _
    rw [List.filter_map]
    refine congrArg _ (List.filter_congr fun n hn => ?_)
    rw [Bool.eq_iff_iff, Function.comp_apply, List.contains_iff_mem, List.contains_iff_mem,
      mem_visited, mem_visited]
    exact reached_renumber h hstart (.node hn)

end FrameGraph
