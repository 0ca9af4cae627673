import FrameGraph.Proofs.Packing.Residents

/-!
# Sharing is safe

Whatever nodes and edges are packed, two logical resources get one bucket only if one allocation
can serve both: they are images of one kind with one signature, and no position lies in both spans
(`Logical.Shares`). The packer compares a resource with the first of the bucket and with one span
for all of it; that every two residents share rests on what the bucket owes to all of them
(`Bucket.Holds`). It follows that a merge never finds a position used twice.
-/

namespace FrameGraph

namespace Logical

/-- That one allocation can serve two logical resources. -/
structure Shares (x y : Logical) : Prop where
  payload : (x.payload = .image ∧ y.payload = .image) ∨
    (x.payload = .depthImage ∧ y.payload = .depthImage)
  format : x.spec.format = y.spec.format
  size : x.spec.size.equal y.spec.size = true
  usage : x.spec.usage = y.spec.usage
  apart : x.span.overlaps y.span = false

variable {x y : Logical}

theorem isAliasable_iff :
    x.isAliasable = true ↔ x.payload = .image ∨ x.payload = .depthImage := by
  unfold isAliasable
  cases x.payload <;> simp [Payload.isAliasable]

theorem Shares.of_compatible (ha : x.isAliasable = true) (hc : x.spec.compatible y.spec = true)
    (hs : x.span.overlaps y.span = false) : x.Shares y := by
  obtain ⟨hpayload, hformat, hsize, husage⟩ := PortSpec.compatible_iff.mp hc
  have hpayload : y.payload = x.payload := hpayload.symm
  exact ⟨(isAliasable_iff.mp ha).imp (fun h => ⟨h, hpayload.trans h⟩) fun h =>
    ⟨h, hpayload.trans h⟩, hformat, hsize, husage, hs⟩

end Logical

namespace Bucket

theorem conflicts_eq_nil {b : Bucket} {x : Logical}
    (h : ∀ u ∈ x.points, b.isUsedAt u.position = false) : b.conflicts x = [] := by
  have hnone : (x.points.map (·.position)).filter b.isUsedAt = [] := by
    refine List.filter_eq_nil_iff.mpr fun i hi => ?_
    obtain ⟨u, hu, rfl⟩ := List.mem_map.mp hi
    exact Bool.eq_false_iff.mp (h u hu)
  rw [conflicts, hnone, dedupNeighbours]

/-- A bucket refuses an image of its signature only where their spans meet. -/
theorem overlaps_of_refused {b : Bucket} {x : Logical} (hx : x.isAliasable = true)
    (hspec : b.spec.compatible x.spec = true) (hrefused : b.accepts x = false) :
    b.span.overlaps x.span = true := by
  have hpayload : b.origin.payload = x.payload := (PortSpec.compatible_iff.mp hspec).1
  have horigin : b.origin.isAliasable = true := by
    rw [Logical.isAliasable, hpayload]
    exact hx
  by_contra hapart
  have haccepts := accepts_iff.mpr ⟨horigin, Bool.eq_false_iff.mpr hapart, hspec⟩
  exact Bool.false_ne_true (hrefused.symm.trans haccepts)

namespace Holds

variable {b : Bucket} {x : Logical} {xs : List Logical}

/-- Any two residents share, not only the first and another one. -/
theorem pairwise_shares (h : b.Holds xs) : xs.Pairwise Logical.Shares := by
  have happart := h.apart
  obtain ⟨rest, rfl, hrest⟩ := h.first
  obtain ⟨hfirst, hothers⟩ := List.pairwise_cons.mp happart
  refine List.pairwise_cons.mpr
    ⟨fun y hy => .of_compatible (hrest y hy).1 (hrest y hy).2 (hfirst y hy), ?_⟩
  refine hothers.imp_of_mem fun {x y} hx hy hxy => ?_
  -- Both fit the first, and fitting is symmetric and transitive.
  obtain ⟨haliasable, hcx⟩ := hrest x hx
  have hcxy := PortSpec.compatible_trans ((PortSpec.compatible_comm ..).trans hcx) (hrest y hy).2
  have hpayload : b.origin.payload = x.payload := (PortSpec.compatible_iff.mp hcx).1
  exact .of_compatible (by rwa [Logical.isAliasable, ← hpayload]) hcxy hxy

/-- A resource that is accepted is used where no resident is. -/
theorem isUsedAt_eq_false (h : b.Holds xs) (ha : b.accepts x = true) {u : UsagePoint}
    (hu : u ∈ x.points) : b.isUsedAt u.position = false := by
  obtain ⟨_, hspan, _⟩ := accepts_iff.mp ha
  refine List.any_eq_false.mpr fun v hv heq => ?_
  obtain ⟨y, hy, hvy⟩ := h.mem_points.mp hv
  have hpos : v.position = u.position := beq_iff_eq.mp heq
  have hcover := h.covers y hy _ (Logical.contains_span hvy)
  refine Bool.eq_false_iff.mp hspan (Span.overlaps_iff.mpr ⟨u.position, ?_, ?_⟩)
  · rwa [← hpos]
  · exact Logical.contains_span hu

end Holds

end Bucket

namespace Packing

variable {strategy : Strategy} {xs : List Logical} {x : Logical} {b : Bucket}

theorem target?_mem {buckets : List Bucket} (h : target? strategy buckets x = some b) :
    b ∈ buckets ∧ b.accepts x = true := by
  obtain ⟨_, _, hfind⟩ := target?_eq_some h
  have haccepts := List.find?_some (p := fun b : Bucket => b.accepts x) hfind
  exact ⟨List.mem_of_find?_eq_some hfind, haccepts⟩

/-- A resource that may be aliased opens a bucket only if all buckets refuse it. -/
theorem accepts_eq_false {buckets : List Bucket} (h : target? .optimized buckets x = none)
    (hx : x.isAliasable = true) : ∀ b ∈ buckets, b.accepts x = false := by
  intro b hb
  simp only [target?, hx, if_true] at h
  exact Bool.eq_false_iff.mpr (List.find?_eq_none.mp h b hb)

/-- Where a resource is merged after others were placed, none of its positions is taken. -/
theorem isUsedAt_target (h : target? strategy (placeAll strategy xs) x = some b) {u : UsagePoint}
    (hu : u ∈ x.points) : b.isUsedAt u.position = false := by
  obtain ⟨hb, ha⟩ := target?_mem h
  exact (holds_placeAll b hb).isUsedAt_eq_false ha hu

theorem conflicts_target (h : target? strategy (placeAll strategy xs) x = some b) :
    b.conflicts x = [] :=
  Bucket.conflicts_eq_nil fun _ => isUsedAt_target h

theorem conflicting_not_mem_placeNotes (xs : List Logical) (x y : Logical) (id : BucketId)
    (positions : List Nat) :
    Note.conflicting id y positions ∉ placeNotes strategy (placeAll strategy xs) x := by
  unfold placeNotes
  cases htarget : target? strategy (placeAll strategy xs) x with
  | none => simp
  | some b => simp [conflicts_target htarget]

theorem conflicting_not_mem_notesFrom (xs ys : List Logical) (y : Logical) (id : BucketId)
    (positions : List Nat) :
    Note.conflicting id y positions ∉ notesFrom strategy (placeAll strategy xs) ys := by
  -- The resources placed so far grow by the one that is placed next.
  induction ys generalizing xs with
  | nil => exact List.not_mem_nil
  | cons x ys ih =>
    rw [notesFrom, ← placeAll_concat, List.mem_append, not_or]
    exact ⟨conflicting_not_mem_placeNotes xs x y id positions, ih (xs ++ [x])⟩

/-- Packing is safe for every list of nodes and of edges. Every logical resource is resident in a
bucket; a bucket lists the ports of its residents, and any two of them share. No merge finds a
position of the incoming resource taken, so none is ever reported as conflicting. -/
theorem pack_shares_safely (strategy : Strategy) (nodes : List Node) (edges : List Edge) :
    let packing := pack strategy nodes edges
    (∀ x ∈ packing.logicals, ∃ b ∈ packing.buckets,
      x ∈ residents strategy packing.logicals b.id) ∧
    (∀ b ∈ packing.buckets,
      b.members = (residents strategy packing.logicals b.id).map (·.port) ∧
      (residents strategy packing.logicals b.id).Pairwise Logical.Shares) ∧
    (∀ placed x later, packing.logicals = placed ++ x :: later →
      ∀ b, target? strategy (placeAll strategy placed) x = some b →
        (∀ u ∈ x.points, b.isUsedAt u.position = false) ∧ b.conflicts x = []) ∧
    ∀ id x positions, Note.conflicting id x positions ∉ packing.notes := by
  refine ⟨fun x hx => exists_resident hx, fun b hb => ?_, fun placed x _ _ b hb => ?_,
    fun id x positions hmem => ?_⟩
  · have h := holds_placeAll b hb
    exact ⟨h.members, h.pairwise_shares⟩
  · exact ⟨fun u hu => isUsedAt_target hb hu, conflicts_target hb⟩
  · rcases List.mem_append.mp hmem with hmem | hmem
    · obtain ⟨_, _, hne⟩ := List.mem_map.mp hmem
      cases hne
    · exact conflicting_not_mem_notesFrom [] _ x id positions hmem

end Packing

end FrameGraph
