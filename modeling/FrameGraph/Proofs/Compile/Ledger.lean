import FrameGraph.Proofs.Compile.Strategies

/-!
# Images handed out

A ledger is a device together with the images that it has handed out, those of failed compiles
among them. It answers as its device does, so that a compile with a ledger makes of the device what
a compile with the device makes of it, and adds the images of the plan to what was handed out
(`Compile.Job.run_ledger`). What every request keeps is kept by compiles
(`Compile.Job.requests_run`), and a device that hands out handles in sequence has made what it has
handed out (`Ledger.Accounts`).
-/

namespace FrameGraph

open Relation Allocator

/-- A device, and all the images that it has handed out. -/
structure Ledger (δ : Type) where
  device : δ
  handed : List Image := []

/-- The images among the resources of a table. -/
def ResourceTable.images (t : ResourceTable) : List Image := t.filterMap (·.2.image?)

section

variable {δ : Type} [Allocator δ]

instance : Allocator (Ledger δ) where
  create l kind descriptor :=
    let (answer, device) := create l.device kind descriptor
    (answer, ⟨device, l.handed ++ answer.toOption.toList⟩)
  records l := records l.device

variable {a : Allotment} {b : Bucket} {buckets : List Bucket}

theorem Ledger.create_eq (l : Ledger δ) (kind : ImageKind) (descriptor : ImageDescriptor) :
    create l kind descriptor =
      ((create l.device kind descriptor).1, ⟨(create l.device kind descriptor).2,
        l.handed ++ (create l.device kind descriptor).1.toOption.toList⟩) := rfl

/-- The image among what stands behind a bucket, if there is one. -/
def Allotment.made (r : Except CompileError (Option Backing)) : List Image :=
  (r.toOption.join.bind (·.image?)).toList

theorem Allotment.back_ledger (a : Allotment) (l : Ledger δ) (b : Bucket) :
    a.back l b = ((a.back l.device b).1,
      ⟨(a.back l.device b).2, l.handed ++ made (a.back l.device b).1⟩) := by
  cases himage : b.imageKind? with
  | some kind =>
    rw [back_image himage, back_image himage, Ledger.create_eq]
    cases (create l.device kind (a.descriptor b)).1 with
    | error err => rfl
    | ok image => cases kind <;> rfl
  | none =>
    -- Nothing is requested for the bucket.
    have hsame : ∀ {r : Except CompileError (Option Backing)}, made r = [] →
        (r, l) = (r, ⟨l.device, l.handed ++ made r⟩) := fun hr => by rw [hr, List.append_nil]
    unfold Bucket.imageKind? at himage
    unfold back
    cases hb : b.payload <;> simp only [hb, reduceCtorEq] at himage ⊢
    case unknown => split <;> exact hsame rfl
    all_goals exact hsame rfl

theorem Allocation.device_cons (a : Allotment) (d : δ) (b : Bucket) (buckets : List Bucket) :
    (Allocation.of a d (b :: buckets)).device =
      match (a.back d b).1 with
      | .error _ => (a.back d b).2
      | .ok _ => (Allocation.of a (a.back d b).2 buckets).device := by
  rw [Allocation.of]
  split <;> next hback => simp only [hback]

/-- Allocation with a ledger goes as it does with the device, and the images of a table are those
that were handed out for it. -/
theorem Allocation.of_ledger (a : Allotment) (l : Ledger δ) (buckets : List Bucket) :
    (Allocation.of a l buckets).resources = (Allocation.of a l.device buckets).resources ∧
    (Allocation.of a l buckets).device.device = (Allocation.of a l.device buckets).device ∧
    ∃ images, (Allocation.of a l buckets).device.handed = l.handed ++ images ∧
      ∀ t, (Allocation.of a l.device buckets).resources = .ok t → t.images = images := by
  induction buckets generalizing l with
  | nil =>
    refine ⟨rfl, rfl, [], (List.append_nil _).symm, fun t ht => ?_⟩
    cases ht
    rfl
  | cons b buckets ih =>
    simp only [resources_cons, device_cons, Allotment.back_ledger a l b]
    cases hback : (a.back l.device b).1 with
    | error err =>
      refine ⟨rfl, rfl, [], rfl, fun t ht => ?_⟩
      cases ht
    | ok backing? =>
      obtain ⟨hresources, hdevice, images, hhanded, himages⟩ :=
        ih ⟨(a.back l.device b).2, l.handed ++ Allotment.made (.ok backing?)⟩
      refine ⟨by rw [hresources], hdevice, Allotment.made (.ok backing?) ++ images, ?_, ?_⟩
      · rw [← List.append_assoc]
        exact hhanded
      · intro t ht
        cases hrest : (Allocation.of a (a.back l.device b).2 buckets).resources with
        | error err =>
          simp only [hrest] at ht
          cases ht
        | ok rest =>
          simp only [hrest] at ht
          cases ht
          rw [← himages rest hrest, ResourceTable.images, List.filterMap_append]
          cases backing? with
          | none => rfl
          | some backing => cases backing <;> rfl

/-! ## What requests keep -/

theorem Allotment.requests_back (a : Allotment) (d : δ) (b : Bucket) :
    ReflTransGen Requests d (a.back d b).2 := by
  cases himage : b.imageKind? with
  | some kind =>
    rw [back_image himage]
    exact .single ⟨kind, a.descriptor b, rfl⟩
  | none =>
    by_cases hunknown : b.payload = .unknown
    · rw [back_unknown hunknown]
    · obtain ⟨backing, hback⟩ := back_handle (a := a) (d := d) himage hunknown
      rw [hback]

theorem Allocation.requests_of (a : Allotment) (d : δ) (buckets : List Bucket) :
    ReflTransGen Requests d (Allocation.of a d buckets).device := by
  induction buckets generalizing d with
  | nil => exact .refl
  | cons b buckets ih =>
    rw [device_cons]
    split
    · exact a.requests_back d b
    · exact (a.requests_back d b).trans (ih _)

section

variable {w : Workshop δ} {verbose : Bool} {nodes : List Node} {edges : List Edge} {s : Schedule}

theorem device_of_unscheduled {err : CompileError}
    (h : Schedule.of w.settings.strategy nodes edges = .error err) :
    (compile w verbose nodes edges).device = w.device := by
  unfold compile
  rw [h]

theorem device_of_scheduled (h : Schedule.of w.settings.strategy nodes edges = .ok s) :
    (compile w verbose nodes edges).device =
      (Allocation.of w.allotment w.device s.packing.buckets).device := by
  unfold compile Workshop.allotment
  simp only [h]
  split <;> rfl

end

end

/-! ## One device for many compiles -/

namespace Compile

/-- A compile, but for the device that it is given. -/
structure Job where
  settings : Settings := {}
  factory : PassFactory := .standard
  scene : SceneHandles := {}
  files : Files := {}
  clock : Clock
  verbose : Bool := false
  nodes : List Node
  edges : List Edge

namespace Job

variable {δ : Type}

def workshop (j : Job) (d : δ) : Workshop δ :=
  ⟨j.settings, j.factory, j.scene, d, j.files, j.clock⟩

/-- What allocation in a job depends on beside the device. -/
def allotment (j : Job) : Allotment := ⟨j.settings, j.scene, j.clock.stamp⟩

variable [Allocator δ]

def run (j : Job) (d : δ) : Compiled δ := compile (j.workshop d) j.verbose j.nodes j.edges

/-- The device after some jobs. -/
def after (d : δ) (jobs : List Job) : δ := jobs.foldl (fun d j => (j.run d).device) d

/-- Some jobs, one after another with one device. -/
def runAll (d : δ) : List Job → List (Compiled δ)
  | [] => []
  | j :: jobs => j.run d :: runAll (j.run d).device jobs

end Job

end Compile

/-- The images of the plan that a compile gives, if it gives one. -/
def Compiled.images {δ : Type} (c : Compiled δ) : List Image :=
  (c.result.plan.map (·.resources.images)).getD []

namespace Compile.Job

variable {δ : Type} [Allocator δ]

section

variable {j : Job} {s : Schedule} {err : CompileError}

theorem device_run_of_error (h : Schedule.of j.settings.strategy j.nodes j.edges = .error err)
    (d : δ) : (j.run d).device = d := device_of_unscheduled h

theorem device_run_of_ok (h : Schedule.of j.settings.strategy j.nodes j.edges = .ok s) (d : δ) :
    (j.run d).device = (Allocation.of j.allotment d s.packing.buckets).device :=
  device_of_scheduled h

end

theorem requests_run (j : Job) (d : δ) : ReflTransGen Requests d (j.run d).device := by
  cases hs : Schedule.of j.settings.strategy j.nodes j.edges with
  | error err =>
    rw [device_run_of_error hs]
  | ok s =>
    rw [device_run_of_ok hs]
    exact Allocation.requests_of ..

theorem requests_after (d : δ) (jobs : List Job) : ReflTransGen Requests d (after d jobs) := by
  induction jobs generalizing d with
  | nil => exact .refl
  | cons j jobs ih => exact (j.requests_run d).trans (ih _)

/-- A job with a ledger makes of the device what it makes of it without, and hands out the images
of its plan. -/
theorem run_ledger (j : Job) (l : Ledger δ) :
    (j.run l).device.device = (j.run l.device).device ∧
    ∃ images, (j.run l).device.handed = l.handed ++ images ∧
      (j.run l.device).images.Sublist images := by
  cases hs : Schedule.of j.settings.strategy j.nodes j.edges with
  | error err =>
    have hfails : (j.run l.device).result.Fails err none := compile_unscheduled hs
    rw [device_run_of_error hs, device_run_of_error hs, Compiled.images, hfails.plan]
    exact ⟨rfl, [], (List.append_nil _).symm, .slnil⟩
  | ok s =>
    obtain ⟨-, hdevice, images, hhanded, himages⟩ :=
      Allocation.of_ledger j.allotment l s.packing.buckets
    rw [device_run_of_ok hs, device_run_of_ok hs, Compiled.images]
    refine ⟨hdevice, images, hhanded, ?_⟩
    cases ht : (Allocation.of j.allotment l.device s.packing.buckets).resources with
    | error err =>
      have hfails : (j.run l.device).result.Fails err (some s) := compile_unallocated hs ht
      rw [hfails.plan]
      exact List.nil_sublist _
    | ok t =>
      have hfinishes : (j.run l.device).result.Finishes s _ := compile_finished hs ht
      rw [hfinishes.plan, ← himages t ht]
      exact .refl _

theorem after_ledger (l : Ledger δ) (jobs : List Job) :
    (after l jobs).device = after l.device jobs ∧
    ∃ images, (after l jobs).handed = l.handed ++ images ∧
      ((runAll l.device jobs).flatMap Compiled.images).Sublist images := by
  induction jobs generalizing l with
  | nil => exact ⟨rfl, [], (List.append_nil _).symm, .slnil⟩
  | cons j jobs ih =>
    obtain ⟨hdevice, images, hhanded, hsub⟩ := j.run_ledger l
    obtain ⟨hdevice', images', hhanded', hsub'⟩ := ih (j.run l).device
    rw [hdevice] at hdevice' hsub'
    refine ⟨hdevice', images ++ images', ?_, ?_⟩
    · rw [← List.append_assoc, ← hhanded]
      exact hhanded'
    · rw [runAll, List.flatMap_cons]
      exact hsub.append hsub'

end Compile.Job

/-! ## Handles in sequence -/

/-- What a device has handed out since it was `d`: as many images as it has made since, with
handles that count on from there, and none past its limit. -/
structure Ledger.Accounts (d : Device) (l : Ledger Device) : Prop where
  handles : l.handed.map (·.handle) = List.range' d.made l.handed.length
  made : l.device.made = d.made + l.handed.length
  limit : l.device.limit = d.limit
  within : ∀ limit, d.limit = some limit → l.device.made ≤ max d.made limit

namespace Ledger.Accounts

variable {d : Device} {l l' : Ledger Device}

theorem start (d : Device) : Accounts d ⟨d, []⟩ :=
  ⟨rfl, rfl, rfl, fun _ _ => Nat.le_max_left ..⟩

theorem request (h : l.Accounts d) (hl : Requests l l') : l'.Accounts d := by
  obtain ⟨kind, descriptor, rfl⟩ := hl
  rw [Ledger.create_eq]
  change Accounts d ⟨(l.device.create kind descriptor).2,
    l.handed ++ (l.device.create kind descriptor).1.toOption.toList⟩
  unfold Device.create
  split
  · simpa [Except.toOption] using h
  · next hspent =>
    refine ⟨?_, ?_, h.limit, fun limit hlimit => ?_⟩
    · simp [Except.toOption, h.handles, h.made, List.range'_concat]
    · simp [Except.toOption, h.made, Nat.add_assoc]
    · have hlt : l.device.made < limit := by
        simpa [Device.isSpent, h.limit, hlimit] using hspent
      exact Nat.le_trans hlt (Nat.le_max_right ..)

theorem requests (h : l.Accounts d) (hl : ReflTransGen Requests l l') : l'.Accounts d := by
  induction hl with
  | refl => exact h
  | tail _ hreq ih => exact ih.request hreq

end Ledger.Accounts

end FrameGraph
