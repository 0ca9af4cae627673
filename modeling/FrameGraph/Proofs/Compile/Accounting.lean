import FrameGraph.Proofs.Compile.Ledger
import FrameGraph.Proofs.Image.Sizes

/-!
# Images are accounted for

Over any number of compiles with one device, the device has made as many images as it has handed
out, and no two plans have an image in common. Every bucket of known payload has one entry in the
table, a handle of the scene or an image made for the bucket (`Allocation.stands_of_ok`). The image
is described by the first resident of the bucket and fits all others, because they share its
signature and equal sizes come to the same pixels (`Bucket.Holds.fits`). All of this stands in
`Compile.Job.run_accounted`.
-/

namespace FrameGraph

open Packing

/-! ## What stands behind buckets -/

/-- What may stand behind a bucket: a handle of the scene, or an image that was made for it. -/
inductive Allotment.Stands (a : Allotment) (b : Bucket) : Backing → Prop
  | image {i : Image} : b.payload = .image → i.descriptor = a.descriptor b → Stands a b (.image i)
  | depthImage {i : Image} : b.payload = .depthImage → i.descriptor = a.descriptor b →
      Stands a b (.depthImage i)
  | camera : b.payload = .camera → Stands a b (.camera a.scene.camera)
  | objects : b.payload = .objects → Stands a b (.objects a.scene.objects)
  | accelerationStructure : b.payload = .accelerationStructure →
      Stands a b (.accelerationStructure a.scene.accelerationStructure)
  | scene : b.payload = .scene → Stands a b (.scene a.scene.scene)

variable {a : Allotment} {d : Device} {b : Bucket} {buckets : List Bucket} {t : ResourceTable}

theorem Device.descriptor_create {kind : ImageKind} {descriptor : ImageDescriptor} {i : Image}
    (h : (Allocator.create d kind descriptor).1 = .ok i) : i.descriptor = descriptor := by
  have hcreate : d.create kind descriptor = (.ok i, (d.create kind descriptor).2) := by
    rw [← h]
    rfl
  rw [(create_ok hcreate).1]

theorem Allotment.stands_of_back {backing : Backing} (h : (a.back d b).1 = .ok (some backing)) :
    a.Stands b backing := by
  unfold Allotment.back at h
  split at h
  case h_5 hb =>
    split at h
    · cases h
    · next hcreate =>
      cases h
      exact .image hb (Device.descriptor_create (congrArg Prod.fst hcreate))
  case h_6 hb =>
    split at h
    · cases h
    · next hcreate =>
      cases h
      exact .depthImage hb (Device.descriptor_create (congrArg Prod.fst hcreate))
  case h_7 hb => split at h <;> cases h
  case h_1 hb => cases h; exact .camera hb
  case h_2 hb => cases h; exact .objects hb
  case h_3 hb => cases h; exact .accelerationStructure hb
  case h_4 hb => cases h; exact .scene hb

/-- A table has one entry for each bucket of known payload, in order, and no others. -/
theorem Allocation.stands_of_ok (h : (Allocation.of a d buckets).resources = .ok t) :
    List.Forall₂ (fun b r => r.1 = b.id ∧ a.Stands b r.2)
      (buckets.filter (·.payload != .unknown)) t := by
  induction buckets generalizing d t with
  | nil =>
    cases h
    exact .nil
  | cons b buckets ih =>
    rw [resources_cons] at h
    cases hback : (a.back d b).1 with
    | error err =>
      rw [hback] at h
      cases h
    | ok backing? =>
      have hpayload := Allotment.payload_of_back hback
      cases hrest : (Allocation.of a (a.back d b).2 buckets).resources with
      | error err =>
        simp only [hback, hrest] at h
        cases h
      | ok rest =>
        simp only [hback, hrest] at h
        cases h
        cases backing? with
        | none =>
          have hb : b.payload = .unknown := by simpa using hpayload
          simpa [hb] using ih hrest
        | some backing =>
          have hb : b.payload ≠ .unknown := fun hb => by simp [hb] at hpayload
          rw [List.filter_cons_of_pos (by simpa using hb)]
          exact .cons ⟨rfl, Allotment.stands_of_back hback⟩ (ih hrest)

theorem ResourceTable.get?_of_mem (hkeys : (t.map (·.1)).Nodup) {r : BucketId × Backing}
    (hr : r ∈ t) : t.get? r.1 = some r.2 := by
  obtain ⟨before, after, rfl⟩ := List.append_of_mem hr
  rw [List.map_append, List.map_cons, List.nodup_middle, List.nodup_cons] at hkeys
  refine List.lookup_eq_some_iff.mpr ⟨before, after, rfl, fun p hp => bne_iff_ne.mpr fun heq => ?_⟩
  exact hkeys.1 (heq ▸ List.mem_append_left _ (List.mem_map_of_mem hp))

/-! ## Fitness -/

/-- An image so described serves a port of the given spec. -/
structure ImageDescriptor.Fits (d : ImageDescriptor) (resolution : Extent) (spec : PortSpec) :
    Prop where
  format : d.format = spec.format
  size : d.size = spec.size.resolve resolution
  usage : d.usage.contains spec.usage = true
  attachment : d.usage.contains .renderAttachment = true

/-- The image of a bucket fits every resident, though it is described by the first. -/
theorem Bucket.Holds.fits {xs : List Logical} {x : Logical} (h : b.Holds xs) (hx : x ∈ xs)
    (a : Allotment) : (a.descriptor b).Fits a.settings.resolution x.spec := by
  have hsame : b.spec.format = x.spec.format ∧ b.spec.usage = x.spec.usage ∧
      b.spec.size.resolve a.settings.resolution = x.spec.size.resolve a.settings.resolution := by
    rcases h.spec_compatible hx with rfl | ⟨-, hcompatible⟩
    · exact ⟨rfl, rfl, rfl⟩
    · obtain ⟨-, hformat, hsize, husage⟩ := PortSpec.compatible_iff.mp hcompatible
      exact ⟨hformat, husage, ImageSize.resolve_eq_of_equal hsize _⟩
  obtain ⟨hformat, husage, hsize⟩ := hsame
  exact ⟨hformat, hsize, husage ▸ Usage.contains_union_left .., Usage.contains_union_right ..⟩

/-! ## Where a device refuses -/

/-- A request that is refused leaves the device as it was. -/
theorem Allotment.device_back_of_error {err : CompileError} (h : (a.back d b).1 = .error err) :
    (a.back d b).2 = d := by
  cases himage : b.imageKind? with
  | some kind =>
    rw [back_image himage] at h ⊢
    change (d.create kind (a.descriptor b)).2 = _
    change ((d.create kind (a.descriptor b)).1.mapError CompileError.device).map _ = _ at h
    unfold Device.create at h ⊢
    split at h
    · next hspent => rw [if_pos hspent]
    · cases h
  | none =>
    by_cases hunknown : b.payload = .unknown
    · rw [back_unknown hunknown]
    · obtain ⟨_, hback⟩ := back_handle (a := a) (d := d) himage hunknown
      rw [hback]

/-- A failed allocation has made the images of the buckets before the one that it stops at. -/
theorem Allocation.device_of_error {err : CompileError}
    (h : (Allocation.of a d buckets).resources = .error err) :
    ∃ first b later, buckets = first ++ b :: later ∧ a.Stops (d.after first) b err ∧
      (Allocation.of a d buckets).device = d.after first := by
  induction buckets generalizing d with
  | nil => cases h
  | cons b buckets ih =>
    rw [resources_cons] at h
    rw [device_cons]
    cases hback : (a.back d b).1 with
    | error err' =>
      rw [hback] at h
      cases h
      exact ⟨[], b, buckets, rfl, Allotment.back_eq_error.mp hback,
        Allotment.device_back_of_error hback⟩
    | ok backing? =>
      rw [hback, Allotment.device_back hback] at h
      cases hrest : (Allocation.of a (d.after [b]) buckets).resources with
      | ok t =>
        simp only [hrest] at h
        cases h
      | error err' =>
        simp only [hrest] at h
        cases h
        obtain ⟨first, c, later, rfl, hstops, hdevice⟩ := ih hrest
        rw [← Allotment.after_cons] at hstops hdevice
        exact ⟨b :: first, c, later, rfl, hstops, by rw [Allotment.device_back hback, hdevice]⟩

/-! ## Tables -/

/-- What a table owes to a packing: one entry for every bucket of known payload, and behind every
bucket of images one that fits all residents. -/
structure Allotment.Serves (a : Allotment) (p : Packing) (t : ResourceTable) : Prop where
  keys : (t.map (·.1)).Nodup
  entries : List.Forall₂ (fun b r => r.1 = b.id ∧ a.Stands b r.2)
    (p.buckets.filter (·.payload != .unknown)) t
  housed : ∀ x ∈ p.logicals, ∃ b ∈ p.buckets, x ∈ residents a.settings.strategy p.logicals b.id
  members : ∀ b ∈ p.buckets,
    b.members = (residents a.settings.strategy p.logicals b.id).map (·.port)
  images : ∀ b ∈ p.buckets, ∀ kind, b.imageKind? = some kind →
    ∃ image, t.get? b.id = some (kind.backing image) ∧
      ∀ x ∈ residents a.settings.strategy p.logicals b.id,
        image.descriptor.Fits a.settings.resolution x.spec

theorem Allotment.Stands.image_eq {backing : Backing} {kind : ImageKind} (h : a.Stands b backing)
    (hb : b.imageKind? = some kind) :
    ∃ i, backing = kind.backing i ∧ i.descriptor = a.descriptor b := by
  unfold Bucket.imageKind? at hb
  cases h with
  | @image i hpayload hi =>
    simp only [hpayload, Option.some.injEq] at hb
    exact ⟨i, by rw [← hb]; rfl, hi⟩
  | @depthImage i hpayload hi =>
    simp only [hpayload, Option.some.injEq] at hb
    exact ⟨i, by rw [← hb]; rfl, hi⟩
  | camera hpayload | objects hpayload | accelerationStructure hpayload | scene hpayload =>
    simp only [hpayload, reduceCtorEq] at hb

theorem Allocation.serves_of_ok {nodes : List Node} {edges : List Edge}
    (h : (Allocation.of a d (pack a.settings.strategy nodes edges).buckets).resources = .ok t) :
    a.Serves (pack a.settings.strategy nodes edges) t := by
  have hentries := stands_of_ok h
  have hids : ((pack a.settings.strategy nodes edges).buckets.map (·.id)).Nodup := ids_nodup ..
  have hkeys : (t.map (·.1)).Nodup := by
    have hfirst := congrArg (List.map (·.1)) (payloads_of_ok h)
    rw [List.map_map, List.map_map] at hfirst
    change t.map (·.1) = _ at hfirst
    rw [hfirst]
    exact hids.sublist (List.filter_sublist.map _)
  have hholds : ∀ b ∈ (pack a.settings.strategy nodes edges).buckets, b.Holds _ := holds_placeAll
  refine ⟨hkeys, hentries, fun x => exists_resident, fun b hb => (hholds b hb).members,
    fun b hb kind hkind => ?_⟩
  have hknown : b.payload ≠ .unknown := fun hunknown => by
    simp [Bucket.imageKind?, hunknown] at hkind
  have hmem : b ∈ (pack a.settings.strategy nodes edges).buckets.filter (·.payload != .unknown) :=
    List.mem_filter.mpr ⟨hb, by simpa using hknown⟩
  obtain ⟨k, hk, hget⟩ := List.getElem_of_mem hmem
  obtain ⟨hid, hstands⟩ := hentries.get hk (hentries.length_eq ▸ hk)
  simp only [List.get_eq_getElem, hget] at hid hstands
  obtain ⟨i, hi, hdescriptor⟩ := hstands.image_eq hkind
  refine ⟨i, ?_, fun x hx => hdescriptor ▸ (hholds b hb).fits hx a⟩
  rw [← hid, ResourceTable.get?_of_mem hkeys (List.getElem_mem _), hi]

/-! ## Any number of compiles -/

namespace Compile.Job

theorem runAll_append {δ : Type} [Allocator δ] (d : δ) (before : List Job) (j : Job)
    (rest : List Job) :
    runAll d (before ++ j :: rest) =
      runAll d before ++ j.run (after d before) ::
        runAll (j.run (after d before)).device rest := by
  induction before generalizing d with
  | nil => rfl
  | cons first before ih =>
    rw [List.cons_append, runAll, ih]
    rfl

end Compile.Job

/-- No device is asked before a schedule is settled. -/
theorem Schedule.of_ne_device (strategy : Strategy) (nodes : List Node) (edges : List Edge)
    (err : DeviceError) : Schedule.of strategy nodes edges ≠ .error (.device err) := by
  intro h
  rcases reachable_cases nodes edges with ⟨-, hkept⟩ | ⟨_, -, -, hkept⟩ | ⟨-, hkept⟩
  · cases (of_unreachable hkept).symm.trans h
  · rcases inOrder_cases _ edges with ⟨-, horder⟩ | ⟨-, order, horder⟩
    · cases (of_unordered hkept horder).symm.trans h
    · cases (of_inOrder hkept horder).symm.trans h
  · cases (of_unreachable hkept).symm.trans h

namespace Compile.Job

/-- The table of a plan serves its packing. -/
theorem serves (j : Job) (d : Device) (h : (j.run d).result.success = true) :
    ∃ plan packing, (j.run d).result.plan = some plan ∧
      (j.run d).result.packing = some packing ∧ j.allotment.Serves packing plan.resources := by
  obtain ⟨s, t, hs, ht, hplan, hpacking, -⟩ := compile_ok h
  obtain ⟨-, -, -, hpack⟩ := Schedule.of_ok hs
  refine ⟨_, s.packing, hplan, hpacking, ?_⟩
  rw [hpack] at ht ⊢
  exact Allocation.serves_of_ok ht

/-- A compile that the device refuses has had it make the images of the buckets before the refused
one. -/
theorem device_of_refused (j : Job) (d : Device) {err : DeviceError}
    (h : (j.run d).result.error = some (.device err)) :
    ∃ packing first b rest, (j.run d).result.packing = some packing ∧
      packing.buckets = first ++ b :: rest ∧
      j.allotment.Stops (d.after first) b (.device err) ∧ (j.run d).device = d.after first := by
  cases hs : Schedule.of j.settings.strategy j.nodes j.edges with
  | error err' =>
    have hfails : (j.run d).result.Fails err' none := compile_unscheduled hs
    cases hfails.error.symm.trans h
    exact absurd hs (Schedule.of_ne_device _ _ _ _)
  | ok s =>
    cases ht : (Allocation.of j.allotment d s.packing.buckets).resources with
    | ok t =>
      have hfinishes : (j.run d).result.Finishes s _ := compile_finished hs ht
      cases hfinishes.error.symm.trans h
    | error err' =>
      have hfails : (j.run d).result.Fails err' (some s) := compile_unallocated hs ht
      cases hfails.error.symm.trans h
      obtain ⟨first, b, rest, hsplit, hstops, hdevice⟩ := Allocation.device_of_error ht
      exact ⟨s.packing, first, b, rest, (compile_scheduled hs).1, hsplit, hstops,
        (device_run_of_ok hs d).trans hdevice⟩

/-- Any number of compiles with one device account for its images, whatever snapshots they are
given and whether or not they succeed. What was handed out since the device was `d` is what it has
made since, all of it with handles of its own, and the device is never driven past its limit. No
image is in two tables, or twice in one. -/
theorem run_accounted (d : Device) (jobs : List Job) :
    let ledger := after (⟨d, []⟩ : Ledger Device) jobs
    ledger.device = after d jobs ∧ ledger.Accounts d ∧
    ((runAll d jobs).flatMap Compiled.images).Sublist ledger.handed ∧
    (((runAll d jobs).flatMap Compiled.images).map (·.handle)).Nodup ∧
    ∀ before j later, jobs = before ++ j :: later →
      let c := j.run (after d before)
      c ∈ runAll d jobs ∧
      (c.result.success = true → ∃ plan packing, c.result.plan = some plan ∧
        c.result.packing = some packing ∧ j.allotment.Serves packing plan.resources) ∧
      ∀ err, c.result.error = some (.device err) → ∃ packing first b rest,
        c.result.packing = some packing ∧ packing.buckets = first ++ b :: rest ∧
        j.allotment.Stops ((after d before).after first) b (.device err) ∧
        c.device = (after d before).after first := by
  intro ledger
  obtain ⟨hdevice, images, hhanded, hsub⟩ := after_ledger (⟨d, []⟩ : Ledger Device) jobs
  rw [List.nil_append] at hhanded
  rw [← hhanded] at hsub
  have haccounts : ledger.Accounts d :=
    (Ledger.Accounts.start d).requests (requests_after _ jobs)
  refine ⟨hdevice, haccounts, hsub, ?_, ?_⟩
  · exact (haccounts.handles ▸ List.nodup_range').sublist (hsub.map _)
  · rintro before j later rfl c
    exact ⟨by rw [runAll_append]; simp [c], j.serves _, fun _ => j.device_of_refused _⟩

end Compile.Job

end FrameGraph
