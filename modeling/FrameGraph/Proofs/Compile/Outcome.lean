import FrameGraph.Proofs.Compile.Allocation
import FrameGraph.Proofs.Order.Cycles
import FrameGraph.Proofs.Packing.Residents
import FrameGraph.Proofs.Reachability

/-!
# The outcome of a compile

A compile stops at the first of its stages that cannot go on: there is no scene provider, or more
than one; what it feeds has a cycle; or allocation comes to a bucket that nothing can stand behind
(`Allotment.StopsFirst`). Which of these it is can be read off the snapshot, the settings and the
device, and a compile that none of them stops gives a plan (`compile_outcome`).
-/

namespace FrameGraph

open Relation

/-! ## Where allocation stops -/

/-- The device once it has made the images of some buckets. -/
def Device.after (d : Device) (buckets : List Bucket) : Device :=
  { d with made := d.made + buckets.countP (·.imageKind?.isSome) }

namespace Allotment

/-- Why allocation stops at a bucket. -/
inductive Stops (a : Allotment) (d : Device) (b : Bucket) : CompileError → Prop
  /-- Nothing stands behind unknown payload, and the settings do not let it pass. -/
  | unsupported : b.payload = .unknown → a.settings.strict = true →
      Stops a d b (.unsupportedPayload b.id b.origin.portName)
  /-- The bucket asks for an image of a device that has come to its limit. -/
  | spent {kind : ImageKind} {limit : Nat} : b.imageKind? = some kind → d.limit = some limit →
      limit ≤ d.made → Stops a d b (.device
        ⟨kind.name, s!"({a.stamp}) OptGenResource-{b.id}", "dummy allocation limit reached"⟩)

/-- Allocation stops at one of some buckets, and at none before it. -/
def StopsFirst (a : Allotment) (d : Device) (buckets : List Bucket) (err : CompileError) : Prop :=
  ∃ before b after, buckets = before ++ b :: after ∧ a.Stops (d.after before) b err ∧
    ∀ first c rest, before = first ++ c :: rest → ∀ err', ¬ a.Stops (d.after first) c err'

variable {a : Allotment} {d : Device} {b : Bucket} {buckets : List Bucket} {err : CompileError}

theorem back_eq_error : (a.back d b).1 = .error err ↔ a.Stops d b err := by
  constructor
  · intro h
    cases himage : b.imageKind? with
    | some kind =>
      rw [back_image himage] at h
      change ((d.create kind (a.descriptor b)).1.mapError CompileError.device).map _ = _ at h
      unfold Device.create at h
      split at h
      · next hspent =>
        cases h
        unfold Device.isSpent at hspent
        split at hspent
        · cases hspent
        · next limit hlimit => exact .spent himage hlimit (by simpa using hspent)
      · cases h
    | none =>
      by_cases hunknown : b.payload = .unknown
      · rw [back_unknown hunknown] at h
        split at h <;> cases h
        exact .unsupported hunknown ‹_›
      · obtain ⟨_, hback⟩ := back_handle (a := a) (d := d) himage hunknown
        rw [hback] at h
        cases h
  · intro h
    cases h with
    | unsupported hunknown hstrict => rw [back_unknown hunknown, if_pos hstrict]
    | @spent kind limit himage hlimit hle =>
      have hspent : d.isSpent = true := by simpa [Device.isSpent, hlimit] using hle
      rw [back_image himage]
      change ((d.create kind (a.descriptor b)).1.mapError CompileError.device).map _ = _
      rw [Device.create, if_pos hspent]
      rfl

/-- A device makes the image of a bucket that it does not stop at. -/
theorem device_back {backing? : Option Backing} (h : (a.back d b).1 = .ok backing?) :
    (a.back d b).2 = d.after [b] := by
  cases himage : b.imageKind? with
  | some kind =>
    rw [back_image himage] at h ⊢
    change (d.create kind (a.descriptor b)).2 = _
    change ((d.create kind (a.descriptor b)).1.mapError CompileError.device).map _ = _ at h
    unfold Device.create at h ⊢
    split at h
    · cases h
    · next hspent => simp [Device.after, himage, hspent]
  | none =>
    have hafter : d.after [b] = d := by simp [Device.after, himage]
    rw [hafter]
    by_cases hunknown : b.payload = .unknown
    · rw [back_unknown hunknown]
    · obtain ⟨_, hback⟩ := back_handle (a := a) (d := d) himage hunknown
      rw [hback]

theorem after_cons (d : Device) (b : Bucket) (buckets : List Bucket) :
    d.after (b :: buckets) = (d.after [b]).after buckets := by
  simp only [Device.after, List.countP_cons, List.countP_nil]
  congr 1
  omega

/-- Allocation stops at the first bucket, or it goes on from there. -/
theorem stopsFirst_cons : a.StopsFirst d (b :: buckets) err ↔
    a.Stops d b err ∨ (∀ err', ¬ a.Stops d b err') ∧ a.StopsFirst (d.after [b]) buckets err := by
  have hnil : d.after [] = d := rfl
  constructor
  · rintro ⟨before, c, after, hsplit, hstops, hnone⟩
    cases before with
    | nil =>
      obtain ⟨rfl, rfl⟩ := List.cons.inj hsplit
      exact .inl hstops
    | cons b' before =>
      obtain ⟨rfl, rfl⟩ := List.cons.inj hsplit
      refine .inr ⟨fun err' => hnone [] b before rfl err', before, c, after, rfl, ?_, ?_⟩
      · rwa [← after_cons]
      · intro first c' rest hbefore err'
        rw [← after_cons]
        exact hnone (b :: first) c' rest (by rw [hbefore]; rfl) err'
  · rintro (hstops | ⟨hpass, before, c, after, rfl, hstops, hnone⟩)
    · exact ⟨[], b, buckets, rfl, hstops, fun first c rest h => by simp at h⟩
    · refine ⟨b :: before, c, after, rfl, by rwa [after_cons], ?_⟩
      intro first c' rest hbefore err'
      cases first with
      | nil =>
        obtain ⟨rfl, -⟩ := List.cons.inj hbefore
        exact hpass err'
      | cons b' first =>
        obtain ⟨rfl, hrest⟩ := List.cons.inj hbefore
        rw [after_cons]
        exact hnone first c' rest hrest err'

theorem StopsFirst.late (h : a.StopsFirst d buckets err) :
    (∃ id name, err = .unsupportedPayload id name) ∨ ∃ e, err = .device e := by
  obtain ⟨_, _, _, -, hstops, -⟩ := h
  cases hstops with
  | unsupported => exact .inl ⟨_, _, rfl⟩
  | spent => exact .inr ⟨_, rfl⟩

end Allotment

/-- Allocation fails exactly as its first bucket that stops it says. -/
theorem Allocation.resources_eq_error {a : Allotment} {d : Device} {buckets : List Bucket}
    {err : CompileError} :
    (Allocation.of a d buckets).resources = .error err ↔ a.StopsFirst d buckets err := by
  induction buckets generalizing d with
  | nil =>
    refine iff_of_false (fun h => nomatch h) ?_
    rintro ⟨before, b, after, hsplit, -⟩
    simp at hsplit
  | cons b buckets ih =>
    rw [Allocation.resources_cons, Allotment.stopsFirst_cons, ← Allotment.back_eq_error]
    cases hback : (a.back d b).1 with
    | error err' =>
      refine ⟨fun h => .inl (congrArg _ (Except.error.inj h)), ?_⟩
      rintro (h | ⟨hnone, -⟩)
      · exact congrArg _ (Except.error.inj h)
      · exact absurd (Allotment.back_eq_error.mp hback) (hnone err')
    | ok backing? =>
      have hnone : ∀ err', ¬ a.Stops d b err' := fun err' h => by
        rw [Allotment.back_eq_error.mpr h] at hback
        cases hback
      rw [Allotment.device_back hback]
      simp only [reduceCtorEq, false_or, hnone, not_false_eq_true, implies_true, true_and, ← ih]
      cases (Allocation.of a (d.after [b]) buckets).resources with
      | error err' => exact Iff.rfl
      | ok t => exact iff_of_false (fun h => nomatch h) fun h => nomatch h

/-! ## Where a compile stops -/

namespace CompileResult

/-- A failed compile, with the schedule that it has come to. -/
structure Fails (r : CompileResult) (err : CompileError) (s? : Option Schedule) : Prop where
  success : r.success = false
  plan : r.plan = none
  error : r.error = some err
  failure : r.failure = some err.message
  packing : r.packing = s?.map (·.packing)
  order : r.order = (s?.map fun s => s.order.map (·.id)).getD []

/-- A compile that gives a plan. -/
structure Finishes (r : CompileResult) (s : Schedule) (plan : Plan) : Prop where
  success : r.success = true
  plan : r.plan = some plan
  error : r.error = none
  failure : r.failure = none
  packing : r.packing = some s.packing
  order : r.order = s.order.map (·.id)

end CompileResult

section

variable {δ : Type} [Allocator δ]

/-- What allocation in a workshop depends on. -/
def Workshop.allotment (w : Workshop δ) : Allotment := ⟨w.settings, w.scene, w.clock.stamp⟩

variable {w : Workshop δ} {verbose : Bool} {nodes : List Node} {edges : List Edge} {s : Schedule}
  {err : CompileError}

theorem compile_unscheduled (h : Schedule.of w.settings.strategy nodes edges = .error err) :
    (compile w verbose nodes edges).result.Fails err none := by
  unfold compile
  rw [h]
  exact ⟨rfl, rfl, rfl, rfl, rfl, rfl⟩

theorem compile_unallocated (hs : Schedule.of w.settings.strategy nodes edges = .ok s)
    (h : (Allocation.of w.allotment w.device s.packing.buckets).resources = .error err) :
    (compile w verbose nodes edges).result.Fails err (some s) := by
  unfold Workshop.allotment at h
  unfold compile
  simp only [hs]
  rw [h]
  exact ⟨rfl, rfl, rfl, rfl, rfl, rfl⟩

theorem compile_finished {t : ResourceTable}
    (hs : Schedule.of w.settings.strategy nodes edges = .ok s)
    (h : (Allocation.of w.allotment w.device s.packing.buckets).resources = .ok t) :
    (compile w verbose nodes edges).result.Finishes s (Compile.assemble w s t) := by
  unfold Workshop.allotment at h
  unfold compile
  simp only [hs]
  rw [h]
  exact ⟨rfl, rfl, rfl, rfl, rfl, rfl⟩

/-- A compile whose schedule is settled has its packing and its order, whether or not it
succeeds. -/
theorem compile_scheduled
    (h : Schedule.of w.settings.strategy nodes edges = .ok s) :
    (compile w verbose nodes edges).result.packing = some s.packing ∧
      (compile w verbose nodes edges).result.order = s.order.map (·.id) := by
  cases ht : (Allocation.of w.allotment w.device s.packing.buckets).resources with
  | error err =>
    have hfails : (compile w verbose nodes edges).result.Fails err (some s) :=
      compile_unallocated h ht
    exact ⟨hfails.packing, hfails.order⟩
  | ok t =>
    have hfinishes : (compile w verbose nodes edges).result.Finishes s (Compile.assemble w s t) :=
      compile_finished h ht
    exact ⟨hfinishes.packing, hfinishes.order⟩

/-- A compile fails, early or with a schedule, or it finishes. -/
theorem compile_cases (w : Workshop δ) (verbose : Bool) (nodes : List Node) (edges : List Edge) :
    (∃ err s?, (compile w verbose nodes edges).result.Fails err s?) ∨
      ∃ s plan, (compile w verbose nodes edges).result.Finishes s plan := by
  cases hs : Schedule.of w.settings.strategy nodes edges with
  | error err => exact .inl ⟨err, none, compile_unscheduled hs⟩
  | ok s =>
    cases ht : (Allocation.of w.allotment w.device s.packing.buckets).resources with
    | error err => exact .inl ⟨err, some s, compile_unallocated hs ht⟩
    | ok t => exact .inr ⟨s, _, compile_finished hs ht⟩

/-- A result has a plan or an error, and the text of the error. -/
theorem compile_consistent (w : Workshop δ) (verbose : Bool) (nodes : List Node)
    (edges : List Edge) :
    let result := (compile w verbose nodes edges).result
    (result.success = true ↔ result.plan.isSome = true) ∧
      (result.success = true ↔ result.error = none ∧ result.failure = none) ∧
      result.failure = result.error.map (·.message) := by
  intro result
  rcases compile_cases w verbose nodes edges with ⟨err, s?, h⟩ | ⟨s, plan, h⟩
  · simp [result, h.success, h.plan, h.error, h.failure]
  · simp [result, h.success, h.plan, h.error, h.failure]

end

/-- A compile without an error up to the order has the error that allocation stops at, if any. -/
theorem compile_ordered (w : Workshop) (verbose : Bool) {nodes kept order : List Node}
    {edges : List Edge} (hkept : reachable nodes edges = .ok kept)
    (horder : inOrder kept edges = .ok order) :
    let result := (compile w verbose nodes edges).result
    let packing := Packing.pack w.settings.strategy order edges
    result.order = order.map (·.id) ∧ result.packing = some packing ∧
      ∀ err, result.error = some err ↔ w.allotment.StopsFirst w.device packing.buckets err := by
  intro result packing
  have hs : Schedule.of w.settings.strategy nodes edges = .ok ⟨order, packing⟩ :=
    Schedule.of_inOrder hkept horder
  simp only [← Allocation.resources_eq_error]
  cases ht : (Allocation.of w.allotment w.device packing.buckets).resources with
  | error err =>
    have h : result.Fails err (some ⟨order, packing⟩) := compile_unallocated hs ht
    exact ⟨h.order, h.packing, fun err' => by rw [h.error, Option.some.injEq, Except.error.injEq]⟩
  | ok t =>
    have h : result.Finishes ⟨order, packing⟩ (Compile.assemble w ⟨order, packing⟩ t) :=
      compile_finished hs ht
    exact ⟨h.order, h.packing, fun err' => by rw [h.error]; exact ⟨nofun, nofun⟩⟩

/-- The outcome of a compile on any snapshot and any device. It fails if there is no scene
provider or more than one, else if the nodes that the scene provider feeds have a cycle, else at the
first bucket that allocation stops at, and never otherwise. It has the order of these nodes and its
packing unless it fails before that, a plan exactly if it succeeds, and the text of its error
exactly if it does not. -/
theorem compile_outcome (w : Workshop) (verbose : Bool) (nodes : List Node) (edges : List Edge) :
    let result := (compile w verbose nodes edges).result
    (result.error = some .missingRoot ↔ rootCount nodes = 0) ∧
    (∀ count, result.error = some (.multipleRoots count) ↔
      count = rootCount nodes ∧ 2 ≤ rootCount nodes) ∧
    ((∃ ids, result.error = some (.cycle ids)) ↔
      ∃ kept, reachable nodes edges = .ok kept ∧ Order.HasCycle kept edges) ∧
    ((∃ kept, reachable nodes edges = .ok kept) ↔ rootCount nodes = 1) ∧
    (∀ kept, reachable nodes edges = .ok kept → ¬ Order.HasCycle kept edges →
      ∃ order, inOrder kept edges = .ok order ∧ result.order = order.map (·.id) ∧
        let packing := Packing.pack w.settings.strategy order edges
        result.packing = some packing ∧
        packing.buckets.map (·.id) = List.range packing.buckets.length ∧
        ∀ err, result.error = some err ↔ w.allotment.StopsFirst w.device packing.buckets err) ∧
    ((¬ ∃ kept, reachable nodes edges = .ok kept ∧ ¬ Order.HasCycle kept edges) →
      result.order = [] ∧ result.packing = none) ∧
    (result.success = true ↔ result.plan.isSome = true) ∧
    (result.success = true ↔ result.error = none ∧ result.failure = none) ∧
    result.failure = result.error.map (·.message) := by
  intro result
  have hconsistent := compile_consistent w verbose nodes edges
  rcases reachable_cases nodes edges with ⟨hcount, hkept⟩ | ⟨_, -, hcount, hkept⟩ | ⟨hcount, hkept⟩
  · have h : result.Fails .missingRoot none :=
      compile_unscheduled (Schedule.of_unreachable hkept)
    refine ⟨?_, ?_, ?_, ?_, ?_, fun _ => ⟨h.order, h.packing⟩, hconsistent⟩
    all_goals simp [h.error, hkept, hcount]
  · obtain ⟨kept, hkept⟩ : ∃ kept, reachable nodes edges = .ok kept := ⟨_, hkept⟩
    rcases inOrder_cases kept edges with ⟨hcycle, horder⟩ | ⟨hcycle, order, horder⟩
    · have h : result.Fails _ none := compile_unscheduled (Schedule.of_unordered hkept horder)
      refine ⟨?_, ?_, ?_, ?_, ?_, fun _ => ⟨h.order, h.packing⟩, hconsistent⟩
      all_goals simp [h.error, hkept, hcount, hcycle]
    · obtain ⟨hids, hpacking, herror⟩ := compile_ordered w verbose hkept horder
      -- Where allocation stops, the error is none of the earlier ones.
      have hlate := fun err h => ((herror err).mp h).late
      refine ⟨iff_of_false (fun h => ?_) (by omega),
        fun count => iff_of_false (fun h => ?_) (by omega),
        iff_of_false (fun ⟨ids, h⟩ => ?_) ?_, iff_of_true ⟨_, hkept⟩ hcount, ?_, ?_, hconsistent⟩
      · simpa using hlate _ h
      · simpa using hlate _ h
      · simpa using hlate _ h
      · simp [hkept, hcycle]
      · intro kept' hkept' _
        cases hkept.symm.trans hkept'
        exact ⟨order, horder, hids, hpacking, Packing.ids_placeAll .., herror⟩
      · exact fun hnone => absurd ⟨_, hkept, hcycle⟩ hnone
  · have h : result.Fails (.multipleRoots (rootCount nodes)) none :=
      compile_unscheduled (Schedule.of_unreachable hkept)
    have hzero : rootCount nodes ≠ 0 := by omega
    have hone : rootCount nodes ≠ 1 := by omega
    refine ⟨?_, ?_, ?_, ?_, ?_, fun _ => ⟨h.order, h.packing⟩, hconsistent⟩
    all_goals simp [h.error, hkept, hcount, hzero, hone, eq_comm]

end FrameGraph
