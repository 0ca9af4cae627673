import FrameGraph.Proofs.Compile.Outcome
import FrameGraph.Proofs.Compile.Reference

/-!
# Naive and optimized plans

Both strategies place the same logical resources, the naive one each in a bucket of its own. Each
naive bucket therefore has one optimized bucket that took its resource in
(`Packing.counterpart?`), and a frame of the optimized plan is the frame of the naive one with
every bucket replaced by that one. Resources of unknown payload are not shared, so that allocation
stops at the same of them under either strategy (`Packing.filter_unknown`).
-/

namespace FrameGraph

open Relation

/-! ## Replacing resources -/

/-- A command with its resource replaced, if it has one and there is one for it. -/
def Command.replace? (f : BucketId → Option BucketId) : Command → Option Command
  | .beginPass name frame => some (.beginPass name frame)
  | .read port id => (f id).map (.read port)
  | .write port id => (f id).map (.write port)
  | .endPass => some .endPass

theorem Port.replace?_use (p : Port) (f : BucketId → Option BucketId) (id : BucketId) :
    (p.use id).replace? f = (f id).map p.use := by
  unfold Port.use
  cases p.role <;> rfl

/-- A block with its resources replaced is the block of the resources that replace them. -/
theorem Node.map_replace?_block (n : Node) (frame : Nat) {f : BucketId → Option BucketId}
    {from? to? : Port → Option BucketId}
    (h : ∀ p ∈ n.ports, (from? p).map f = (to? p).map some) :
    (n.block frame from?).map (Command.replace? f) = (n.block frame to?).map some := by
  have huses : (n.ports.filterMap fun p => (from? p).map p.use).map (Command.replace? f) =
      (n.ports.filterMap fun p => (to? p).map p.use).map some := by
    rw [List.map_filterMap, List.map_filterMap]
    refine List.filterMap_congr fun p hp => ?_
    have hp := h p hp
    cases hfrom : from? p with
    | none =>
      rw [hfrom] at hp
      rw [Option.map_eq_none_iff.mp hp.symm]
      rfl
    | some id =>
      obtain ⟨id', hto, hid⟩ := Option.map_eq_some_iff.mp (hfrom ▸ hp).symm
      simp only [hto, Option.map_some, p.replace?_use, ← hid]
  simp only [Node.block, List.map_append, List.map_cons, huses]
  rfl

/-- The error with the same cause: the number of a bucket does not count. -/
def CompileError.Agrees : CompileError → CompileError → Prop
  | .unsupportedPayload _ name, .unsupportedPayload _ name' => name = name'
  | err, err' => err = err'

theorem CompileError.Agrees.refl (err : CompileError) : err.Agrees err := by
  cases err <;> rfl

namespace Packing

variable {strategy : Strategy} {xs : List Logical} {b : Bucket}

/-- The bucket of one packing that took in the first resource of a bucket of another. -/
def counterpart? (p q : Packing) (id : BucketId) : Option BucketId :=
  (p.bucket? id).bind fun b => q.holder? b.origin.port

theorem bucket?_eq_some {p : Packing} (hp : p.buckets = placeAll strategy xs)
    (hb : b ∈ p.buckets) : p.bucket? b.id = some b := by
  obtain ⟨c, hfind, hc, hid⟩ := exists_find? (p := (·.id == b.id)) hb (beq_self_eq_true _)
  rw [hp] at hb hc
  rw [bucket?, hfind, List.inj_on_of_nodup_map (ids_nodup strategy xs) hc hb (beq_iff_eq.mp hid)]

theorem counterpart?_of_mem {p q : Packing} (hp : p.buckets = placeAll .naive xs)
    (hb : b ∈ p.buckets) {port : PortId} (hport : port ∈ b.members) :
    p.counterpart? q b.id = q.holder? port := by
  rw [counterpart?, bucket?_eq_some hp hb, Option.bind_some]
  rw [members_naive (hp ▸ hb)] at hport
  rw [List.mem_singleton.mp hport]

/-! ## Resources of unknown payload -/

theorem payload_ne_unknown (h : b.accepts x = true) :
    b.payload ≠ .unknown ∧ x.payload ≠ .unknown := by
  obtain ⟨haliasable, -, hspec⟩ := Bucket.accepts_iff.mp h
  have hne : b.payload ≠ .unknown := by
    change b.payload.isAliasable = true at haliasable
    intro hunknown
    rw [hunknown] at haliasable
    cases haliasable
  have hpayload : b.payload = x.payload := (PortSpec.compatible_iff.mp hspec).1
  exact ⟨hne, hpayload ▸ hne⟩

/-- Resources of unknown payload open buckets of their own, in order, under either strategy. -/
theorem filter_unknown (strategy : Strategy) (xs : List Logical) :
    ((placeAll strategy xs).filter (·.payload == .unknown)).map (·.origin) =
      xs.filter (·.payload == .unknown) := by
  induction xs using List.reverseRecOn with
  | nil => rfl
  | append_singleton xs x ih =>
    rw [placeAll_concat, List.filter_append, ← ih]
    rcases place_cases strategy (placeAll strategy xs) x with
      ⟨-, hplace⟩ | ⟨before, b, after, hsplit, haccepts, -, hplace⟩
    · have hsingle : (Bucket.single (placeAll strategy xs).length x).payload = x.payload := rfl
      rw [hplace, List.filter_append, List.map_append, List.filter_singleton, List.filter_singleton,
        hsingle]
      cases x.payload == .unknown <;> rfl
    · -- Where resources share a bucket, none of them is unknown.
      obtain ⟨hb, hx⟩ := payload_ne_unknown haccepts
      have hmerge : (b.merge x).payload ≠ .unknown := hb
      rw [hplace, hsplit]
      simp [hb, hx, hmerge]

/-- The first bucket that the settings do not let pass, where the device makes every image. -/
def refused? (strict : Bool) (buckets : List Bucket) : Option Bucket :=
  if strict then buckets.find? (·.payload == .unknown) else none

theorem refused?_placeAll (strict : Bool) (strategy : Strategy) (xs : List Logical) :
    (refused? strict (placeAll strategy xs)).map (·.origin) =
      if strict then xs.find? (·.payload == .unknown) else none := by
  unfold refused?
  cases strict
  · rfl
  · rw [if_pos rfl, if_pos rfl, ← List.head?_filter, ← List.head?_filter,
      ← filter_unknown strategy xs, List.head?_map]

end Packing

/-! ## Devices that never refuse -/

section

variable {δ : Type} [Allocator δ]

namespace Allocator

def Requests (d d' : δ) : Prop := ∃ kind descriptor, (create d kind descriptor).2 = d'

/-- No request is refused, whatever was requested before. -/
def Serves (d : δ) : Prop :=
  ∀ d', ReflTransGen Requests d d' → ∀ kind descriptor, ∃ image,
    (create d' kind descriptor).1 = .ok image

theorem Serves.of_requests {d d' : δ} (h : Serves d) (hd : Requests d d') : Serves d' :=
  fun _ hd' => h _ (.head hd hd')

end Allocator

open Allocator

theorem Device.serves {d : Device} (h : d.limit = none) : Serves d := by
  have hlimit : ∀ d', ReflTransGen Requests d d' → d'.limit = none := by
    intro d' hd'
    induction hd' with
    | refl => exact h
    | tail _ hreq ih =>
      obtain ⟨kind, descriptor, rfl⟩ := hreq
      change (Device.create _ kind descriptor).2.limit = none
      unfold Device.create
      split <;> exact ih
  intro d' hd' kind descriptor
  refine ⟨⟨d'.made, descriptor⟩, ?_⟩
  change (d'.create kind descriptor).1 = _
  rw [Device.create, Device.isSpent, hlimit d' hd']
  rfl

variable {a : Allotment} {d : δ}

theorem Allotment.back_of_serves (hd : Serves d) (b : Bucket)
    (hb : b.payload = .unknown → a.settings.strict = false) :
    (∃ backing?, (a.back d b).1 = .ok backing?) ∧ Serves (a.back d b).2 := by
  cases himage : b.imageKind? with
  | some kind =>
    rw [back_image himage]
    obtain ⟨image, hcreate⟩ := hd d .refl kind (a.descriptor b)
    rw [hcreate]
    exact ⟨⟨_, rfl⟩, hd.of_requests ⟨kind, _, rfl⟩⟩
  | none =>
    by_cases hunknown : b.payload = .unknown
    · rw [back_unknown hunknown, hb hunknown]
      exact ⟨⟨_, rfl⟩, hd⟩
    · obtain ⟨backing, hback⟩ := back_handle (a := a) (d := d) himage hunknown
      rw [hback]
      exact ⟨⟨_, rfl⟩, hd⟩

/-- Allocation on a device that serves fails exactly at the first bucket that is refused. -/
theorem Allocation.cases_of_serves (a : Allotment) (hd : Serves d) (buckets : List Bucket) :
    (∃ b, Packing.refused? a.settings.strict buckets = some b ∧
      (Allocation.of a d buckets).resources =
        .error (.unsupportedPayload b.id b.origin.portName)) ∨
    (Packing.refused? a.settings.strict buckets = none ∧
      ∃ t, (Allocation.of a d buckets).resources = .ok t) := by
  induction buckets generalizing d with
  | nil =>
    refine .inr ⟨?_, [], rfl⟩
    cases hstrict : a.settings.strict <;> rfl
  | cons b buckets ih =>
    by_cases hrefused : b.payload = .unknown ∧ a.settings.strict = true
    · obtain ⟨hunknown, hstrict⟩ := hrefused
      refine .inl ⟨b, by simp [Packing.refused?, hstrict, hunknown], ?_⟩
      rw [Allocation.resources_cons, Allotment.back_unknown hunknown, if_pos hstrict]
    · have hnext : Packing.refused? a.settings.strict (b :: buckets) =
          Packing.refused? a.settings.strict buckets := by
        unfold Packing.refused?
        split
        · next hstrict =>
          rw [List.find?_cons_of_neg]
          simpa using fun hunknown => hrefused ⟨hunknown, hstrict⟩
        · rfl
      obtain ⟨⟨backing?, hback⟩, hd'⟩ := Allotment.back_of_serves (a := a) hd b fun hunknown =>
        Bool.eq_false_iff.mpr fun hstrict => hrefused ⟨hunknown, hstrict⟩
      rw [hnext, Allocation.resources_cons, hback]
      rcases ih hd' with ⟨c, hc, hrest⟩ | ⟨hnone, t, hrest⟩
      · exact .inl ⟨c, hc, by simp only [hrest]; rfl⟩
      · exact .inr ⟨hnone, _, by simp only [hrest]; rfl⟩

end

/-! ## Both strategies -/

theorem Packing.exists_counterpart {strategy : Strategy} {xs : List Logical} {p q : Packing}
    (hp : p.buckets = placeAll .naive xs) (hq : q.buckets = placeAll strategy xs)
    (hports : (xs.map (·.port)).Nodup) {b : Bucket} (hb : b ∈ p.buckets) :
    ∃ port, b.members = [port] ∧ ∃ c ∈ q.buckets, port ∈ c.members ∧
      (∀ c' ∈ q.buckets, port ∈ c'.members → c' = c) ∧ p.counterpart? q b.id = some c.id := by
  have hb' := hp ▸ hb
  obtain ⟨rest, hresidents, -⟩ := (holds_placeAll b hb').first
  have horigin : b.origin ∈ xs :=
    (residents_sublist .naive xs b.id).subset (hresidents ▸ List.mem_cons_self)
  obtain ⟨c, hc, hx⟩ : ∃ c ∈ placeAll strategy xs, b.origin ∈ residents strategy xs c.id :=
    exists_resident horigin
  have hmembers := members_naive hb'
  refine ⟨b.origin.port, hmembers, c, hq ▸ hc, (mem_members hc).mpr ⟨_, hx, rfl⟩,
    fun c' hc' hmem => eq_of_mem_members hports hc (hq ▸ hc') hx hmem, ?_⟩
  rw [counterpart?_of_mem hp hb (hmembers ▸ List.mem_singleton_self _),
    holder?_eq_some hq hports hc hx]

theorem Schedule.of_cases (nodes : List Node) (edges : List Edge) :
    (∃ err, ∀ strategy, Schedule.of strategy nodes edges = .error err) ∨
      ∃ order, ∀ strategy, Schedule.of strategy nodes edges =
        .ok ⟨order, .pack strategy order edges⟩ := by
  cases hkept : reachable nodes edges with
  | error err => exact .inl ⟨err, fun _ => Schedule.of_unreachable hkept⟩
  | ok kept =>
    cases horder : inOrder kept edges with
    | error err => exact .inl ⟨err, fun _ => Schedule.of_unordered hkept horder⟩
    | ok order => exact .inr ⟨order, fun _ => Schedule.of_inOrder hkept horder⟩

/-- The workshop with another strategy. -/
def Workshop.withStrategy {δ : Type} (w : Workshop δ) (strategy : Strategy) : Workshop δ :=
  { w with settings := { w.settings with strategy } }

/-- A device that serves allocates for both strategies, or for neither for the same reason. -/
theorem Allocation.cases_of_strategies {δ : Type} [Allocator δ] (w : Workshop δ)
    (hserves : Allocator.Serves w.device) (xs : List Logical) :
    let resources strategy :=
      (Allocation.of (w.withStrategy strategy).allotment w.device
        (Packing.placeAll strategy xs)).resources
    (∃ err err', resources .naive = .error err ∧ resources .optimized = .error err' ∧
      err.Agrees err') ∨
    ∃ t t', resources .naive = .ok t ∧ resources .optimized = .ok t' := by
  intro resources
  let refused strategy := Packing.refused? w.settings.strict (Packing.placeAll strategy xs)
  have hrefused : (refused .naive).map (·.origin) = (refused .optimized).map (·.origin) :=
    (Packing.refused?_placeAll _ .naive xs).trans (Packing.refused?_placeAll _ .optimized xs).symm
  have hcases : ∀ strategy, (∃ b, refused strategy = some b ∧
      resources strategy = .error (.unsupportedPayload b.id b.origin.portName)) ∨
      (refused strategy = none ∧ ∃ t, resources strategy = .ok t) :=
    fun strategy => Allocation.cases_of_serves (w.withStrategy strategy).allotment hserves
      (Packing.placeAll strategy xs)
  rcases hcases .naive with ⟨b, hb, hnaive⟩ | ⟨hb, t, hnaive⟩ <;>
    rcases hcases .optimized with ⟨c, hb', hoptimized⟩ | ⟨hb', t', hoptimized⟩ <;>
    rw [hb, hb'] at hrefused
  · have horigin : b.origin = c.origin := Option.some.inj hrefused
    exact .inl ⟨_, _, hnaive, hoptimized, congrArg _ horigin⟩
  · cases hrefused
  · cases hrefused
  · exact .inr ⟨t, t', hnaive, hoptimized⟩

namespace Editor

open Allocator Packing

variable {e : Editor} {order : List Node} {n : Node} {p : Port}

/-- What a port uses under the naive strategy has as counterpart what it uses under another. -/
theorem Orders.counterpart?_resource? (h : e.Orders order) (hc : e.Consistent) (hn : n ∈ order)
    (hp : p ∈ n.ports) (hnames : (n.ports.map (·.name)).Nodup) (strategy : Strategy) :
    let naive := pack .naive order e.edges
    let packing := pack strategy order e.edges
    (e.resource? (order.map (·.id)) naive n p).map (naive.counterpart? packing) =
      (e.resource? (order.map (·.id)) packing n p).map some := by
  intro naive packing
  have hports := h.ports_nodup hc
  unfold resource?
  split
  · rfl
  · cases hsource : e.source? (order.map (·.id)) n p with
    | none => rfl
    | some port =>
      obtain ⟨b, hb, x, hx, rfl, -⟩ := exists_home hc h hn hp hnames hsource .naive
      obtain ⟨c, hcb, y, hy, hport, -⟩ := exists_home hc h hn hp hnames hsource strategy
      have hnaive : naive.holder? x.port = some b.id := holder?_eq_some rfl hports hb hx
      have hpacking : packing.holder? x.port = some c.id :=
        hport ▸ holder?_eq_some rfl hports hcb hy
      have hcounterpart : naive.counterpart? packing b.id = packing.holder? x.port :=
        counterpart?_of_mem rfl hb ((mem_members hb).mpr ⟨x, hx, rfl⟩)
      simp only [Option.bind_some, hnaive, hpacking, Option.map_some, hcounterpart]

variable {δ : Type} [Allocator δ] {w : Workshop δ}

/-- A frame of the naive plan, with counterparts in place of its buckets. -/
theorem Orders.map_replace?_run (h : e.Orders order) (hc : e.Consistent)
    (hnames : ∀ n ∈ e.nodes, (n.ports.map (·.name)).Nodup) (hfactory : w.factory = .standard)
    {strategy : Strategy} {a a' : Allotment} {d d' : δ} {t t' : ResourceTable}
    (ht : (Allocation.of a d (pack .naive order e.edges).buckets).resources = .ok t)
    (ht' : (Allocation.of a' d' (pack strategy order e.edges).buckets).resources = .ok t')
    (frame : Nat) :
    let naive : Schedule := ⟨order, pack .naive order e.edges⟩
    let schedule : Schedule := ⟨order, pack strategy order e.edges⟩
    ((Compile.assemble (w.withStrategy .naive) naive t).run frame).map
        (Command.replace? (naive.packing.counterpart? schedule.packing)) =
      ((Compile.assemble (w.withStrategy strategy) schedule t').run frame).map some := by
  intro naive schedule
  have hfactory : ∀ strategy, (w.withStrategy strategy).factory = .standard := fun _ => hfactory
  rw [h.run_assemble hc (hfactory .naive) hnames ht,
    h.run_assemble hc (hfactory strategy) hnames ht', List.map_flatMap, List.map_flatMap]
  refine List.flatMap_congr fun n hn => n.map_replace?_block frame fun p hp => ?_
  have hn := List.mem_of_mem_filter hn
  exact h.counterpart?_resource? hc hn hp (hnames n (h.mem n hn)) strategy

/-- On a device that never refuses, a graph made by edits in which no node has two ports of one
name fails to compile under either strategy for the same reason, or it compiles under both. Then
the order and the logical resources are the same, every naive bucket has one resource, which one
optimized bucket took in, and an optimized frame is the naive one with that bucket in its place. -/
theorem Reachable.optimized_refines_naive (he : e.Reachable)
    (hnames : ∀ n ∈ e.nodes, (n.ports.map (·.name)).Nodup) (hfactory : w.factory = .standard)
    (hserves : Serves w.device) (verbose : Bool) :
    let naive := (compile (w.withStrategy .naive) verbose e.nodes e.edges).result
    let optimized := (compile (w.withStrategy .optimized) verbose e.nodes e.edges).result
    (∃ err err', naive.success = false ∧ naive.error = some err ∧
      optimized.success = false ∧ optimized.error = some err' ∧ err.Agrees err') ∨
    (naive.success = true ∧ optimized.success = true ∧ naive.order = optimized.order ∧
      ∃ packing packing' plan plan', naive.packing = some packing ∧ naive.plan = some plan ∧
        optimized.packing = some packing' ∧ optimized.plan = some plan' ∧
        packing.logicals = packing'.logicals ∧
        (∀ b ∈ packing.buckets, ∃ port, b.members = [port] ∧
          ∃ c ∈ packing'.buckets, port ∈ c.members ∧
            (∀ c' ∈ packing'.buckets, port ∈ c'.members → c' = c) ∧
            packing.counterpart? packing' b.id = some c.id) ∧
        ∀ frame, (plan.run frame).map (Command.replace? (packing.counterpart? packing')) =
          (plan'.run frame).map some) := by
  intro naive optimized
  have hc := he.consistent
  rcases Schedule.of_cases e.nodes e.edges with ⟨err, herr⟩ | ⟨order, horder⟩
  · have hn : naive.Fails err none := compile_unscheduled (herr .naive)
    have ho : optimized.Fails err none := compile_unscheduled (herr .optimized)
    exact .inl ⟨err, err, hn.success, hn.error, ho.success, ho.error, .refl err⟩
  · have horders : e.Orders order := hc.orders (horder .naive)
    rcases Allocation.cases_of_strategies w hserves (Logical.all order e.edges) with
      ⟨err, err', hnaive, hoptimized, hagrees⟩ | ⟨t, t', hnaive, hoptimized⟩
    · have hn : naive.Fails err _ := compile_unallocated (horder .naive) hnaive
      have ho : optimized.Fails err' _ := compile_unallocated (horder .optimized) hoptimized
      exact .inl ⟨err, err', hn.success, hn.error, ho.success, ho.error, hagrees⟩
    · have hn : naive.Finishes _ _ := compile_finished (horder .naive) hnaive
      have ho : optimized.Finishes _ _ := compile_finished (horder .optimized) hoptimized
      refine .inr ⟨hn.success, ho.success, hn.order.trans ho.order.symm, _, _, _, _, hn.packing,
        hn.plan, ho.packing, ho.plan, rfl, fun b hb => ?_, fun frame => ?_⟩
      · exact exists_counterpart rfl rfl (horders.ports_nodup hc) hb
      · exact horders.map_replace?_run hc hnames hfactory hnaive hoptimized frame

/-- Where images may be shared, a chain of blurs needs one bucket less. -/
theorem blurChain_replaces :
    let w : Workshop := { device := {}, clock := ⟨"", "", ""⟩ }
    let naive := (compile (w.withStrategy .naive) false blurChain.nodes blurChain.edges).result
    let optimized :=
      (compile (w.withStrategy .optimized) false blurChain.nodes blurChain.edges).result
    naive.packing.map (·.bucketCount) = optimized.packing.map (·.bucketCount + 1) ∧
      ∃ packing packing' plan plan', naive.packing = some packing ∧ naive.plan = some plan ∧
        optimized.packing = some packing' ∧ optimized.plan = some plan' ∧
        ∀ frame, (plan.run frame).map (Command.replace? (packing.counterpart? packing')) =
          (plan'.run frame).map some := by
  intro w naive optimized
  refine ⟨by decide +kernel, ?_⟩
  rcases Reachable.optimized_refines_naive (w := w) blurChain_reachable (by decide) rfl
    (Device.serves rfl) false with ⟨_, _, hfails, -⟩ | ⟨-, -, -, packing, packing', plan, plan',
      hpacking, hplan, hpacking', hplan', -, -, hrun⟩
  · exact absurd hfails (by decide +kernel)
  · exact ⟨packing, packing', plan, plan', hpacking, hplan, hpacking', hplan', hrun⟩

end Editor

end FrameGraph
