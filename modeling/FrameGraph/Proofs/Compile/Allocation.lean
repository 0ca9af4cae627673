import FrameGraph.Compile
import Mathlib.Data.List.Forall2
import Mathlib.Data.List.Nodup

/-!
# What stands behind a bucket

An allocation that succeeds gives every bucket of known payload a resource of that payload, and
buckets of unknown payload nothing (`Allocation.payloads_of_ok`). A compile that succeeds has gone
through all its stages (`compile_ok`).
-/

namespace FrameGraph

namespace ResourceTable

theorem has_iff {t : ResourceTable} {id : BucketId} : t.has id = true ↔ id ∈ t.map (·.1) := by
  rw [has, get?, List.lookup_isSome_iff, List.mem_map]
  simp only [beq_iff_eq]
  exact ⟨fun ⟨r, hr, h⟩ => ⟨r, hr, h.symm⟩, fun ⟨r, hr, h⟩ => ⟨r, hr, h.symm⟩⟩

end ResourceTable

/-- The kind of image that stands behind a bucket, if one does. -/
def Bucket.imageKind? (b : Bucket) : Option ImageKind :=
  match b.payload with
  | .image => some .colour
  | .depthImage => some .depth
  | _ => none

def ImageKind.backing : ImageKind → Image → Backing
  | .colour => .image
  | .depth => .depthImage

variable {δ : Type} [Allocator δ] {a : Allotment} {d : δ} {b : Bucket} {buckets : List Bucket}

namespace Allotment

/-- A bucket of images has behind it what the device makes. -/
theorem back_image {kind : ImageKind} (h : b.imageKind? = some kind) :
    a.back d b =
      (((Allocator.create d kind (a.descriptor b)).1.mapError CompileError.device).map fun i =>
        some (kind.backing i), (Allocator.create d kind (a.descriptor b)).2) := by
  unfold Bucket.imageKind? at h
  unfold back
  split at h <;> cases h
  all_goals
    next hb =>
      simp only [hb]
      split <;> next hcreate => rw [hcreate]; rfl

theorem back_unknown (h : b.payload = .unknown) :
    a.back d b = (if a.settings.strict then .error (.unsupportedPayload b.id b.origin.portName)
      else .ok none, d) := by
  unfold back
  simp only [h]
  split <;> rfl

/-- Behind any other bucket is a handle to data of the scene. -/
theorem back_handle (himage : b.imageKind? = none) (hknown : b.payload ≠ .unknown) :
    ∃ backing, a.back d b = (.ok (some backing), d) := by
  unfold Bucket.imageKind? at himage
  unfold back
  cases hb : b.payload <;> simp only [hb, reduceCtorEq] at himage
  case unknown => exact absurd hb hknown
  all_goals exact ⟨_, rfl⟩

end Allotment

/-- What stands behind a bucket depends on its number and its signature. -/
theorem Allotment.back_congr {c : Bucket} (hid : b.id = c.id) (hspec : b.spec = c.spec) :
    a.back d b = a.back d c := by
  have hpayload : b.payload = c.payload := congrArg PortSpec.payload hspec
  have hname : b.origin.portName = c.origin.portName := congrArg PortSpec.name hspec
  have hdescriptor : a.descriptor b = a.descriptor c := by
    rw [descriptor, descriptor, hid, hspec]
  unfold back
  rw [hpayload, hid, hname, hdescriptor]

/-- A bucket has a resource of its payload behind it, or its payload is unknown. -/
theorem Allotment.payload_of_back {backing? : Option Backing}
    (h : (a.back d b).1 = .ok backing?) :
    backing?.map (·.payload) = if b.payload = .unknown then none else some b.payload := by
  unfold Allotment.back at h
  split at h
  case h_5 hb =>
    split at h <;> cases h
    simp [hb, Backing.payload]
  case h_6 hb =>
    split at h <;> cases h
    simp [hb, Backing.payload]
  case h_7 hb =>
    split at h <;> cases h
    simp [hb]
  all_goals
    next hb =>
      cases h
      simp [hb, Backing.payload]

namespace Allocation

theorem resources_cons (a : Allotment) (d : δ) (b : Bucket) (buckets : List Bucket) :
    (Allocation.of a d (b :: buckets)).resources =
      match (a.back d b).1 with
      | .error err => .error err
      | .ok backing? =>
        (Allocation.of a (a.back d b).2 buckets).resources.map
          (backing?.toList.map (b.id, ·) ++ ·) := by
  rw [Allocation.of]
  split <;> next hback => simp only [hback]

/-- Buckets of the same numbers and signatures get the same resources, or the same error. -/
theorem resources_congr {cs : List Bucket}
    (h : List.Forall₂ (fun b c => b.id = c.id ∧ b.spec = c.spec) buckets cs) :
    (Allocation.of a d buckets).resources = (Allocation.of a d cs).resources := by
  induction h generalizing d with
  | nil => rfl
  | cons hb _ ih =>
    rw [resources_cons, resources_cons, Allotment.back_congr hb.1 hb.2, hb.1, ih]

theorem payloads_of_ok {t : ResourceTable} (h : (Allocation.of a d buckets).resources = .ok t) :
    t.map (fun r => (r.1, r.2.payload)) =
      (buckets.filter (·.payload != .unknown)).map fun b => (b.id, b.payload) := by
  induction buckets generalizing d t with
  | nil =>
    cases h
    rfl
  | cons b bs ih =>
    unfold Allocation.of at h
    split at h
    · cases h
    · next backing? after hback =>
      have hpayload := Allotment.payload_of_back (a := a) (d := d) (b := b) (by rw [hback])
      cases hrest : (Allocation.of a after bs).resources with
      | error err =>
        simp only [hrest] at h
        cases h
      | ok rest =>
        simp only [hrest] at h
        cases h
        rw [List.map_append, ih hrest]
        cases backing? with
        | none =>
          have hb : b.payload = .unknown := by simpa using hpayload
          simp [hb]
        | some backing =>
          have hb : b.payload ≠ .unknown := fun hb => by simp [hb] at hpayload
          simp only [Option.map_some, if_neg hb, Option.some.injEq] at hpayload
          simp [hb, hpayload]

theorem has_iff {t : ResourceTable} (h : (Allocation.of a d buckets).resources = .ok t)
    (hids : (buckets.map (·.id)).Nodup) (hb : b ∈ buckets) :
    t.has b.id = true ↔ b.payload ≠ .unknown := by
  have hkeys : t.map (·.1) = (buckets.filter (·.payload != .unknown)).map (·.id) := by
    have hfirst := congrArg (List.map (·.1)) (payloads_of_ok h)
    rwa [List.map_map, List.map_map] at hfirst
  rw [ResourceTable.has_iff, hkeys, List.mem_map]
  constructor
  · rintro ⟨c, hc, hid⟩
    obtain ⟨hc, hpayload⟩ := List.mem_filter.mp hc
    cases List.inj_on_of_nodup_map hids hc hb hid
    simpa using hpayload
  · exact fun hpayload => ⟨b, List.mem_filter.mpr ⟨hb, by simpa using hpayload⟩, rfl⟩

end Allocation

namespace Schedule

variable {strategy : Strategy} {nodes : List Node} {edges : List Edge} {s : Schedule}

theorem of_ok (h : Schedule.of strategy nodes edges = .ok s) :
    ∃ kept, reachable nodes edges = .ok kept ∧ inOrder kept edges = .ok s.order ∧
      s.packing = .pack strategy s.order edges := by
  unfold Schedule.of at h
  cases hkept : reachable nodes edges with
  | error err =>
    rw [hkept] at h
    cases h
  | ok kept =>
    rw [hkept] at h
    cases horder : inOrder kept edges with
    | error err =>
      simp only [bind, Except.bind, horder] at h
      cases h
    | ok order =>
      simp only [bind, Except.bind, horder] at h
      cases h
      exact ⟨kept, rfl, horder, rfl⟩

section

variable {kept order : List Node} {err : CompileError}

theorem of_unreachable (h : reachable nodes edges = .error err) :
    Schedule.of strategy nodes edges = .error err := by
  rw [Schedule.of, h]
  rfl

theorem of_unordered (hkept : reachable nodes edges = .ok kept)
    (h : inOrder kept edges = .error err) : Schedule.of strategy nodes edges = .error err := by
  rw [Schedule.of, hkept]
  simp only [bind, Except.bind, h]

theorem of_inOrder (hkept : reachable nodes edges = .ok kept)
    (h : inOrder kept edges = .ok order) :
    Schedule.of strategy nodes edges = .ok ⟨order, .pack strategy order edges⟩ := by
  rw [Schedule.of, hkept]
  simp only [bind, Except.bind, h]
  rfl

end

end Schedule

/-- A compile that succeeds has a schedule and an allocation, and gives the plan of both. -/
theorem compile_ok {w : Workshop δ} {verbose : Bool} {nodes : List Node} {edges : List Edge}
    (h : (compile w verbose nodes edges).result.success = true) :
    ∃ s t, Schedule.of w.settings.strategy nodes edges = .ok s ∧
      (Allocation.of ⟨w.settings, w.scene, w.clock.stamp⟩ w.device s.packing.buckets).resources =
        .ok t ∧
      (compile w verbose nodes edges).result.plan = some (Compile.assemble w s t) ∧
      (compile w verbose nodes edges).result.packing = some s.packing ∧
      (compile w verbose nodes edges).result.order = s.order.map (·.id) := by
  unfold compile at h ⊢
  cases hs : Schedule.of w.settings.strategy nodes edges with
  | error err =>
    rw [hs] at h
    cases h
  | ok s =>
    simp only [hs] at h ⊢
    cases ht : (Allocation.of ⟨w.settings, w.scene, w.clock.stamp⟩ w.device
      s.packing.buckets).resources with
    | error err =>
      rw [ht] at h
      cases h
    | ok t => exact ⟨s, t, rfl, ht, rfl, rfl, rfl⟩

end FrameGraph
