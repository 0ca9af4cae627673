import FrameGraph.Reachability
import Mathlib.Data.List.Nodup
import Mathlib.Data.List.Perm.Subperm
import Mathlib.Logic.Relation

/-!
# What the scene provider feeds

The search queues an id when it is first found, so that the ids visited are those queued or done,
and what a done id leads to is visited (`Reachability.Exploring`). As every id but the first stands
at the end of an edge, there is a step for each of them, and the search ends by itself
(`Reachability.Searches`) with all that can be reached (`Reachability.mem_visited`). What is kept of
a snapshot is therefore settled by its edges alone (`reachable_exact`).
-/

namespace FrameGraph

open Relation

/-- How many scene providers a snapshot has. -/
def rootCount (nodes : List Node) : Nat := nodes.countP (·.kind == .sceneProvider)

/-- The scene provider is found if it is the only one, and otherwise the number decides. -/
theorem root_cases (nodes : List Node) :
    (rootCount nodes = 0 ∧ root nodes = .error .missingRoot) ∨
    (∃ n, nodes.filter (·.kind == .sceneProvider) = [n] ∧ rootCount nodes = 1 ∧
      root nodes = .ok n.id) ∨
    (2 ≤ rootCount nodes ∧ root nodes = .error (.multipleRoots (rootCount nodes))) := by
  simp only [rootCount, List.countP_eq_length_filter, root]
  generalize nodes.filter (·.kind == .sceneProvider) = roots
  match roots with
  | [] => exact .inl ⟨rfl, rfl⟩
  | [n] => exact .inr (.inl ⟨n, rfl, rfl, rfl⟩)
  | _ :: _ :: _ => exact .inr (.inr ⟨Nat.le_add_left .., rfl⟩)

namespace Reachability

/-- An edge leads from one id to another. -/
def Arc (edges : List Edge) (a b : NodeId) : Prop :=
  ∃ e ∈ edges, e.start.node = a ∧ e.stop.node = b

/-- A search that no bound cuts off: in each round the id at the head of the queue is taken out,
and the ids it leads to that are new are visited and queued. It ends when the queue is empty. -/
inductive Searches (edges : List Edge) :
    (rounds : Nat) → (visited queue found : List NodeId) → Prop
  | done (visited : List NodeId) : Searches edges 0 visited [] visited
  | round {rounds : Nat} {visited queue found fresh : List NodeId} {id : NodeId} :
      fresh = ((successors edges id).filter (· ∉ visited)).eraseDups →
      Searches edges rounds (visited ++ fresh) (queue ++ fresh) found →
      Searches edges (rounds + 1) visited (id :: queue) found

theorem nodup_eraseDups : (ids : List NodeId) → ids.eraseDups.Nodup
  | [] => List.nodup_nil
  | id :: ids => by
    rw [List.eraseDups_cons, List.nodup_cons]
    refine ⟨fun hmem => ?_, nodup_eraseDups _⟩
    simpa using (List.mem_filter.mp (List.mem_eraseDups.mp hmem)).2
termination_by ids => ids.length
decreasing_by exact Nat.lt_succ_of_le (List.length_filter_le ..)

/-- A search that has as many steps left as it needs. -/
structure Exploring (edges : List Edge) (start : NodeId) (fuel : Nat)
    (visited queue : List NodeId) : Prop where
  start_mem : start ∈ visited
  nodup : visited.Nodup
  reached : ∀ a ∈ visited, ReflTransGen (Arc edges) start a
  queued : queue ⊆ visited
  closed : ∀ a ∈ visited, a ∈ queue ∨ ∀ b, Arc edges a b → b ∈ visited
  steps : fuel + visited.length = edges.length + 1 + queue.length

namespace Exploring

variable {edges : List Edge} {start : NodeId} {visited queue : List NodeId} {fuel : Nat}

/-- Every id that is reached is the start or the end of an edge. -/
theorem length_le (h : Exploring edges start fuel visited queue) :
    visited.length ≤ edges.length + 1 := by
  have hsub : visited ⊆ start :: edges.map (·.stop.node) := by
    intro a ha
    rcases ReflTransGen.cases_tail (h.reached a ha) with rfl | ⟨b, -, e, he, -, rfl⟩
    · exact List.mem_cons_self
    · exact List.mem_cons_of_mem _ (List.mem_map_of_mem he)
  simpa using (List.subperm_of_subset h.nodup hsub).length_le

theorem step {id : NodeId} (h : Exploring edges start (fuel + 1) visited (id :: queue)) :
    let fresh := ((successors edges id).filter (· ∉ visited)).eraseDups
    Exploring edges start fuel (visited ++ fresh) (queue ++ fresh) := by
  intro fresh
  have hfresh : ∀ b, b ∈ fresh ↔ Arc edges id b ∧ b ∉ visited := by
    intro b
    rw [List.mem_eraseDups, List.mem_filter, mem_successors, decide_eq_true_eq]
    exact Iff.rfl
  have hid : id ∈ visited := h.queued List.mem_cons_self
  refine ⟨List.mem_append_left _ h.start_mem, ?_, fun a ha => ?_, ?_, fun a ha => ?_, ?_⟩
  · refine List.nodup_append.mpr ⟨h.nodup, nodup_eraseDups _, ?_⟩
    rintro a ha b hb rfl
    exact ((hfresh a).mp hb).2 ha
  · rcases List.mem_append.mp ha with ha | ha
    · exact h.reached a ha
    · exact (h.reached id hid).tail ((hfresh a).mp ha).1
  · intro a ha
    rcases List.mem_append.mp ha with ha | ha
    · exact List.mem_append_left _ (h.queued (List.mem_cons_of_mem _ ha))
    · exact List.mem_append_right _ ha
  · rcases List.mem_append.mp ha with ha | ha
    · rcases h.closed a ha with hq | hdone
      · rcases List.mem_cons.mp hq with rfl | hq
        · -- What the id at the head leads to is visited or fresh.
          refine .inr fun b hab => ?_
          by_cases hb : b ∈ visited
          · exact List.mem_append_left _ hb
          · exact List.mem_append_right _ ((hfresh b).mpr ⟨hab, hb⟩)
        · exact .inl (List.mem_append_left _ hq)
      · exact .inr fun b hab => List.mem_append_left _ (hdone b hab)
    · exact .inl (List.mem_append_right _ ha)
  · have hsteps := h.steps
    simp only [List.length_append, List.length_cons] at hsteps ⊢
    omega

/-- The steps that are there suffice for the search to end, with an empty queue. -/
theorem explore (h : Exploring edges start fuel visited queue) :
    ∃ rounds rest, fuel = rounds + rest ∧
      Searches edges rounds visited queue (explore edges fuel visited queue) ∧
      Exploring edges start rest (explore edges fuel visited queue) [] := by
  induction fuel generalizing visited queue with
  | zero =>
    have hlength := h.length_le
    have hsteps := h.steps
    obtain rfl := List.length_eq_zero_iff.mp (by omega : queue.length = 0)
    exact ⟨0, 0, rfl, .done visited, h⟩
  | succ fuel ih =>
    cases queue with
    | nil => exact ⟨0, fuel + 1, (Nat.zero_add _).symm, .done visited, h⟩
    | cons id queue =>
      obtain ⟨rounds, rest, hfuel, hsearch, hend⟩ := ih h.step
      exact ⟨rounds + 1, rest, by omega, .round rfl hsearch, hend⟩

theorem mem_iff (h : Exploring edges start fuel visited []) {a : NodeId} :
    a ∈ visited ↔ ReflTransGen (Arc edges) start a := by
  refine ⟨h.reached a, fun ha => ?_⟩
  induction ha with
  | refl => exact h.start_mem
  | tail _ hbc ih => exact (h.closed _ ih).resolve_left List.not_mem_nil _ hbc

end Exploring

theorem exploring_start (edges : List Edge) (start : NodeId) :
    Exploring edges start (edges.length + 1) [start] [start] :=
  ⟨List.mem_cons_self, List.nodup_singleton _, fun _ ha => List.mem_singleton.mp ha ▸ .refl,
    List.Subset.refl _, fun _ ha => .inl ha, rfl⟩

theorem mem_visited {edges : List Edge} {start a : NodeId} :
    a ∈ visited edges start ↔ ReflTransGen (Arc edges) start a := by
  obtain ⟨_, _, -, -, h⟩ := (exploring_start edges start).explore
  exact h.mem_iff

/-- The search from one id ends with the ids visited, each of them found once, after a round for
each. -/
theorem searches_visited (edges : List Edge) (start : NodeId) :
    Searches edges (visited edges start).length [start] [start] (visited edges start) ∧
      (visited edges start).Nodup := by
  obtain ⟨rounds, rest, hfuel, hsearch, hend⟩ := (exploring_start edges start).explore
  have hsteps : rest + (visited edges start).length = edges.length + 1 := hend.steps
  have hrounds : rounds = (visited edges start).length := by omega
  exact ⟨hrounds ▸ hsearch, hend.nodup⟩

end Reachability

open Reachability

/-- What is kept of a snapshot: the nodes that can be reached from the scene provider, in order. -/
theorem reachable_cases (nodes : List Node) (edges : List Edge) :
    (rootCount nodes = 0 ∧ reachable nodes edges = .error .missingRoot) ∨
    (∃ n, nodes.filter (·.kind == .sceneProvider) = [n] ∧ rootCount nodes = 1 ∧
      reachable nodes edges = .ok (nodes.filter fun m => (visited edges n.id).contains m.id)) ∨
    (2 ≤ rootCount nodes ∧ reachable nodes edges = .error (.multipleRoots (rootCount nodes))) := by
  unfold reachable
  rcases root_cases nodes with ⟨hcount, hroot⟩ | ⟨n, hn, hcount, hroot⟩ | ⟨hcount, hroot⟩
  · exact .inl ⟨hcount, by rw [hroot]; rfl⟩
  · exact .inr (.inl ⟨n, hn, hcount, by rw [hroot]; rfl⟩)
  · exact .inr (.inr ⟨hcount, by rw [hroot]; rfl⟩)

/-- What is kept are the nodes that have been visited from the scene provider, itself among
them. -/
theorem reachable_ok {nodes kept : List Node} {edges : List Edge}
    (h : reachable nodes edges = .ok kept) :
    ∃ n, nodes.filter (·.kind == .sceneProvider) = [n] ∧
      kept = nodes.filter fun m => (visited edges n.id).contains m.id := by
  rcases reachable_cases nodes edges with ⟨-, herror⟩ | ⟨n, hn, -, hkept⟩ | ⟨-, herror⟩
  · cases herror.symm.trans h
  · exact ⟨n, hn, Except.ok.inj (h.symm.trans hkept)⟩
  · cases herror.symm.trans h

theorem reachable_sublist {nodes kept : List Node} {edges : List Edge}
    (h : reachable nodes edges = .ok kept) : kept.Sublist nodes := by
  obtain ⟨_, -, rfl⟩ := reachable_ok h
  exact List.filter_sublist

theorem mem_reachable {nodes kept : List Node} {edges : List Edge} {provider n : Node}
    (hprovider : nodes.filter (·.kind == .sceneProvider) = [provider])
    (h : reachable nodes edges = .ok kept) :
    n ∈ kept ↔ n ∈ nodes ∧ ReflTransGen (Arc edges) provider.id n.id := by
  obtain ⟨m, hm, rfl⟩ := reachable_ok h
  cases hprovider.symm.trans hm
  rw [List.mem_filter, List.contains_iff_mem, mem_visited]

/-- What is kept of a snapshot, whatever its nodes and edges are. If there is one scene provider,
the search from it ends, and the nodes it finds are kept in their order, each as often as it is
listed: those with the id of the provider or an id that edges lead to from there. Otherwise nothing
is kept, and the number of scene providers says why. -/
theorem reachable_exact (nodes : List Node) (edges : List Edge) :
    (rootCount nodes = 1 → ∃ provider found,
      nodes.filter (·.kind == .sceneProvider) = [provider] ∧
      Searches edges found.length [provider.id] [provider.id] found ∧ found.Nodup ∧
      (∀ id, id ∈ found ↔ id = provider.id ∨ TransGen (Arc edges) provider.id id) ∧
      reachable nodes edges = .ok (nodes.filter fun n => found.contains n.id)) ∧
    (rootCount nodes = 0 → reachable nodes edges = .error .missingRoot) ∧
    (2 ≤ rootCount nodes →
      reachable nodes edges = .error (.multipleRoots (rootCount nodes))) := by
  rcases reachable_cases nodes edges with
    ⟨hcount, hkept⟩ | ⟨provider, hprovider, hcount, hkept⟩ | ⟨hcount, hkept⟩
  · exact ⟨by omega, fun _ => hkept, by omega⟩
  · refine ⟨fun _ => ?_, by omega, by omega⟩
    obtain ⟨hsearch, hnodup⟩ := searches_visited edges provider.id
    refine ⟨provider, visited edges provider.id, hprovider, hsearch, hnodup, ?_, hkept⟩
    intro id
    rw [mem_visited, reflTransGen_iff_eq_or_transGen]
  · exact ⟨by omega, by omega, fun _ => hkept⟩

/-- A snapshot with a scene provider on a cycle, an edge from it to itself, an edge listed twice, a
node listed twice, and an id of no node on the way to another one. -/
def tangled : List Node × List Edge :=
  let node (id : NodeId) (kind : PassKind) : Node := { id, name := "Pass", kind, ports := [] }
  let link (id : EdgeId) (a b : NodeId) : Edge := ⟨id, ⟨a, 0, "Out"⟩, ⟨b, 0, "In"⟩, .image⟩
  ([node 5 .gBuffer, node 7 .lighting, node 1 .sceneProvider, node 5 .gBuffer, node 9 .present],
    [link 20 1 1, link 21 1 5, link 22 1 5, link 23 5 42, link 24 42 9, link 25 9 1, link 26 7 7,
      link 27 7 5])

/-- All nodes but the one that no edge leads to are kept. -/
theorem tangled_exact :
    rootCount tangled.1 = 1 ∧
    (∃ kept, reachable tangled.1 tangled.2 = .ok kept ∧ kept.map (·.id) = [5, 1, 5, 9]) ∧
    ∃ provider found, tangled.1.filter (·.kind == .sceneProvider) = [provider] ∧
      Searches tangled.2 found.length [provider.id] [provider.id] found ∧ found.Nodup ∧
      (∀ id, id ∈ found ↔ id = provider.id ∨ TransGen (Arc tangled.2) provider.id id) ∧
      reachable tangled.1 tangled.2 = .ok (tangled.1.filter fun n => found.contains n.id) :=
  ⟨rfl, ⟨_, rfl, rfl⟩, (reachable_exact tangled.1 tangled.2).1 rfl⟩

/-! ## Any order of nodes and edges -/

section

variable {nodes nodes' : List Node} {edges edges' : List Edge}

theorem root_eq_of_perm (h : nodes.Perm nodes') : root nodes = root nodes' := by
  have hperm := h.filter (·.kind == .sceneProvider)
  unfold root
  generalize nodes.filter (·.kind == .sceneProvider) = roots at hperm ⊢
  generalize nodes'.filter (·.kind == .sceneProvider) = roots' at hperm ⊢
  match roots, roots', hperm with
  | [], _, hperm => rw [hperm.nil_eq]
  | [_], _, hperm => rw [List.singleton_perm.mp hperm]
  | _ :: _ :: _, [], hperm => exact absurd hperm.length_eq (by simp)
  | _ :: _ :: _, [_], hperm => exact absurd hperm.length_eq (by simp)
  | _ :: _ :: _, _ :: _ :: _, hperm => simp only [hperm.length_eq]

/-- The same nodes are kept, in the order given, or the same error is found. -/
theorem reachable_perm (hnodes : nodes.Perm nodes') (hedges : edges.Perm edges') :
    (∃ err, reachable nodes edges = .error err ∧ reachable nodes' edges' = .error err) ∨
      ∃ kept kept', reachable nodes edges = .ok kept ∧ reachable nodes' edges' = .ok kept' ∧
        kept.Perm kept' ∧ kept.Sublist nodes := by
  unfold reachable
  rw [root_eq_of_perm hnodes]
  cases root nodes' with
  | error err => exact .inl ⟨err, rfl, rfl⟩
  | ok start =>
    have harc : Arc edges = Arc edges' := by
      funext a b
      simp only [Arc, hedges.mem_iff]
    have hcontains : ∀ id, (visited edges start).contains id = (visited edges' start).contains id :=
      fun id => by
        rw [Bool.eq_iff_iff, List.contains_iff_mem, List.contains_iff_mem, mem_visited,
          mem_visited, harc]
    refine .inr ⟨_, _, rfl, rfl, ?_, List.filter_sublist⟩
    simp only [hcontains]
    exact hnodes.filter _

end

end FrameGraph
