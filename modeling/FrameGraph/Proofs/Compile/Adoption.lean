import FrameGraph.Proofs.Compile.Allocation
import FrameGraph.Proofs.Slot.History

/-!
# Successful compiles are adopted

A compile leaves buckets of unknown payload without a resource, and a pass that is bound to a
bucket without one cannot be prepared. Wiring binds only buckets that have something behind them,
whatever the snapshot looks like, so that every pass can run on the table it was wired to
(`Wiring.runsOn_bindAll`) and every slot takes the plan (`compile_adoptable`).
-/

namespace FrameGraph

variable {t : ResourceTable}

theorem Bindings.mem_insert {b : Bindings} {port : String} {resource : BucketId}
    {entry : String × BucketId} (h : entry ∈ b.insert port resource) :
    entry = (port, resource) ∨ entry ∈ b := by
  induction b with
  | nil => exact .inl (List.mem_singleton.mp h)
  | cons first rest ih =>
    obtain ⟨name, bound⟩ := first
    rw [insert] at h
    split at h
    · rcases List.mem_cons.mp h with h | h
      · exact .inl h
      · exact .inr (List.mem_cons_of_mem _ h)
    · split at h
      · exact List.mem_cons.mp h
      · rcases List.mem_cons.mp h with h | h
        · exact .inr (h ▸ List.mem_cons_self)
        · exact (ih h).imp_right (List.mem_cons_of_mem _)

namespace Pass

/-- The pass has no fault of its own, and every resource bound to it is in the table. -/
structure RunsOn (p : Pass) (t : ResourceTable) : Prop where
  faultless : p.fault = none
  present : ∀ b ∈ p.bindings, t.has b.2 = true

variable {p q : Pass}

theorem RunsOn.check (h : p.RunsOn t) : p.check t.has = .ok () := by
  have hnone : (p.bindings.find? fun b => !t.has b.2) = none :=
    List.find?_eq_none.mpr fun b hb => by simp [h.present b hb]
  unfold Pass.check
  simp only [h.faultless, hnone]

theorem runsOn_ofNode (n : Node) (t : ResourceTable) : (ofNode n).RunsOn t :=
  ⟨rfl, fun _ hb => nomatch hb⟩

theorem RunsOn.bind? (h : p.RunsOn t) {port : String} {resource : BucketId}
    (hresource : t.has resource = true) (hbind : p.bind? port resource = some q) :
    q.RunsOn t := by
  unfold Pass.bind? at hbind
  split at hbind
  · cases hbind
    refine ⟨h.faultless, fun entry hentry => ?_⟩
    rcases Bindings.mem_insert hentry with rfl | hentry
    · exact hresource
    · exact h.present entry hentry
  · cases hbind

end Pass

namespace Wiring

variable {placed : List Placed}

theorem mem_passes_standard {order : List Node} {e : Placed} (he : e ∈ passes .standard order) :
    ∃ n ∈ order, e = (n.id, .ofNode n) := by
  obtain ⟨n, hn, hpass⟩ := List.mem_filterMap.mp he
  refine ⟨n, hn, ?_⟩
  unfold PassFactory.standard at hpass
  split at hpass
  · cases hpass
  · cases hpass
  · exact (Option.some.inj hpass).symm

theorem has_of_mem_bindings {buckets : List Bucket} {b : Binding} (hb : b ∈ bindings buckets t) :
    t.has b.bucket = true := by
  obtain ⟨bucket, hbucket, hpoint⟩ := List.mem_flatMap.mp hb
  obtain ⟨_, -, rfl⟩ := List.mem_map.mp hpoint
  exact (List.mem_filter.mp hbucket).2

/-- A pass is bound to a resource of the table, or left as it is. -/
theorem runsOn_bind (h : ∀ e ∈ placed, e.2.RunsOn t) {b : Binding}
    (hb : t.has b.bucket = true) : ∀ e ∈ bind placed b, e.2.RunsOn t := by
  unfold bind
  split
  · exact h
  · next i hi =>
    intro e he
    obtain ⟨k, hk⟩ := List.mem_iff_getElem?.mp he
    rw [List.getElem?_modify] at hk
    obtain ⟨first, hfirst, rfl⟩ := Option.map_eq_some_iff.mp hk
    have hfirst := h first (List.mem_of_getElem? hfirst)
    split
    · cases hbind : first.2.bind? b.point.portName b.bucket with
      | none => simpa [hbind] using hfirst
      | some pass => simpa [hbind] using hfirst.bind? hb hbind
    · exact hfirst

theorem runsOn_bindAll (h : ∀ e ∈ placed, e.2.RunsOn t) {bs : List Binding}
    (hbs : ∀ b ∈ bs, t.has b.bucket = true) : ∀ e ∈ bindAll placed bs, e.2.RunsOn t := by
  unfold bindAll
  induction bs generalizing placed with
  | nil => exact h
  | cons b bs ih =>
    obtain ⟨hb, hbs⟩ := List.forall_mem_cons.mp hbs
    exact ih (runsOn_bind h hb) hbs

end Wiring

namespace Slot

/-- A plan whose passes can run is installed. -/
theorem install_of_check {plan : Plan}
    (h : ∀ pass ∈ plan.passes, pass.check plan.resources.has = .ok ()) (s : Slot) :
    s.install plan = .ok ⟨s.generation + 1, some plan.ready⟩ := by
  rcases install_cases s plan with ⟨hok, -⟩ | ⟨err, -, hfails⟩
  · exact hok
  · obtain ⟨-, before, pass, after, hsplit, -, hpass⟩ := (hfails err).mpr rfl
    cases (h pass (by simp [hsplit])).symm.trans hpass

end Slot

/-- Every pass that a compile assembles can run on the resources of the plan. -/
theorem Compile.runsOn_assemble {δ : Type} {w : Workshop δ} (hfactory : w.factory = .standard)
    (s : Schedule) (t : ResourceTable) : ∀ pass ∈ (assemble w s t).passes, pass.RunsOn t := by
  intro pass hpass
  obtain ⟨e, he, rfl⟩ := List.mem_map.mp hpass
  refine Wiring.runsOn_bindAll (fun e he => ?_) (fun b hb => Wiring.has_of_mem_bindings hb) e he
  rw [hfactory] at he
  obtain ⟨n, -, rfl⟩ := Wiring.mem_passes_standard he
  exact Pass.runsOn_ofNode n t

/-- A successful compile of any snapshot, with any settings and any device, is adopted by any slot:
every resource that a pass is bound to is in the plan, and the slot reaches its next generation. -/
theorem compile_adoptable {δ : Type} [Allocator δ] {w : Workshop δ} {verbose : Bool}
    {nodes : List Node} {edges : List Edge} (hfactory : w.factory = .standard)
    (h : (compile w verbose nodes edges).result.success = true) (s : Slot) :
    ∃ plan, (compile w verbose nodes edges).result.plan = some plan ∧
      (∀ pass ∈ plan.passes, ∀ b ∈ pass.bindings, plan.resources.has b.2 = true) ∧
      (∀ pass ∈ plan.passes, pass.check plan.resources.has = .ok ()) ∧
      s.adopt (compile w verbose nodes edges).result =
        .ok ⟨s.generation + 1, some plan.ready⟩ := by
  obtain ⟨schedule, t, -, -, hplan, -, -⟩ := compile_ok h
  have hruns := Compile.runsOn_assemble hfactory schedule t
  refine ⟨_, hplan, fun pass hpass => (hruns pass hpass).present,
    fun pass hpass => (hruns pass hpass).check, ?_⟩
  rcases s.adopt_cases (compile w verbose nodes edges).result with
    ⟨plan, -, hsome, hadopt⟩ | ⟨hnone, -⟩
  · cases hplan.symm.trans hsome
    rw [hadopt]
    exact Slot.install_of_check (fun pass hpass => (hruns pass hpass).check) s
  · simp [h, hplan] at hnone

/-- A scene provider, and two nodes of one id whose masks, of unknown payload, lead to one port of
the present node twice and to no node. -/
def twinMasks : List Node × List Edge :=
  let twin (name : String) : Node :=
    { id := 5, name, kind := .gaussianBlur
      ports := [⟨6, .input "Scene" .scene, false⟩, ⟨7, .output "Mask" .unknown, false⟩,
        ⟨8, .imageOutput "Blurred Image" .rgba16Float, false⟩] }
  ([{ id := 0, name := "Scene Provider", kind := .sceneProvider
      ports := [⟨1, .output "Scene" .scene, false⟩] },
    twin "First", twin "Second",
    { id := 20, name := "Present", kind := .present
      ports := [⟨21, .imageInput "Final Image" .rgba16Float, false⟩] }],
   [⟨30, ⟨0, 1, "Scene"⟩, ⟨5, 6, "Scene"⟩, .scene⟩,
    ⟨31, ⟨5, 7, "Mask"⟩, ⟨20, 21, "Final Image"⟩, .unknown⟩,
    ⟨32, ⟨5, 8, "Blurred Image"⟩, ⟨20, 21, "Final Image"⟩, .image⟩,
    ⟨33, ⟨5, 7, "Mask"⟩, ⟨20, 21, "Final Image"⟩, .unknown⟩,
    ⟨34, ⟨5, 7, "Mask"⟩, ⟨99, 1, "Image"⟩, .unknown⟩])

theorem twinMasks_adopted :
    let w : Workshop := { device := {}, clock := ⟨"", "", ""⟩ }
    let result := (compile w false twinMasks.1 twinMasks.2).result
    result.success = true ∧ result.order = [0, 5, 5, 20] ∧
      ∃ plan, result.plan = some plan ∧
        Slot.adopt ⟨4, none⟩ result = .ok ⟨5, some plan.ready⟩ := by
  intro w result
  have hsuccess : result.success = true := by decide +kernel
  obtain ⟨plan, hplan, -, -, hadopt⟩ := compile_adoptable rfl hsuccess ⟨4, none⟩
  exact ⟨hsuccess, by decide +kernel, plan, hplan, hadopt⟩

end FrameGraph
