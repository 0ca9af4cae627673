import FrameGraph.Proofs.Order.Forward
import FrameGraph.Proofs.Packing.Census
import FrameGraph.Proofs.Packing.Logicals
import Mathlib.Data.Finset.Dedup
import Mathlib.Data.Finset.Lattice.Fold
import Mathlib.Order.Lattice.Nat

/-!
# No image too many

Where edges run forward, resources are placed in the order in which they begin to live, so that a
bucket is free for a new resource as soon as no resident is alive where the new one begins
(`Packing.exists_resident_alive`). Whenever a bucket is opened, as many resources of its signature
as there are buckets of it are therefore alive at one position, and no assignment of images can do
with fewer (`Packing.pack_minimal`).
-/

namespace FrameGraph

/-- Every edge from an output port of a listed node to another listed node runs forward. -/
def FeedsForward (nodes : List Node) (edges : List Edge) : Prop :=
  ∀ e ∈ edges, ∀ (i j : Nat) (m n : Node), nodes[i]? = some m → nodes[j]? = some n →
    (∃ p ∈ m.outputs, e.start.isAt m.id p.id = true) → e.stop.node = n.id → n.id ≠ m.id → i < j

theorem FeedsForward.of_inOrder {nodes order : List Node} {edges : List Edge}
    (hids : (nodes.map (·.id)).Nodup) (h : inOrder nodes edges = .ok order) :
    FeedsForward order edges := by
  rintro e he i j m n hm hn ⟨p, -, hstart⟩ hstop -
  obtain ⟨hj, rfl⟩ := List.getElem?_eq_some_iff.mp hn
  have hsplit : order = order.take j ++ order[j] :: order.drop (j + 1) := by
    rw [List.getElem_cons_drop, List.take_append_drop]
  have hbefore := mem_before_of_inOrder hids h hsplit (List.mem_of_getElem? hm) he
    (Endpoint.isAt_iff.mp hstart).1 hstop
  obtain ⟨k, hk, hkm⟩ := List.mem_take_iff_getElem.mp hbefore
  obtain ⟨hi, rfl⟩ := List.getElem?_eq_some_iff.mp hm
  have hnodup : order.Nodup := .of_map _ (((inOrder_perm h).map (·.id)).nodup_iff.mpr hids)
  have hki : k = i := (hnodup.getElem_inj_iff).mp hkm
  omega

namespace Logical

/-! ## The order of resources -/

variable {nodes : List Node} {edges : List Edge} {x : Logical}

theorem position_ascends (nodes : List Node) (edges : List Edge) :
    (all nodes edges).Pairwise (·.position ≤ ·.position) := by
  rw [all, List.pairwise_map, outputs, List.pairwise_flatMap]
  constructor
  · rintro ⟨n, i⟩ -
    exact List.pairwise_map.mpr (List.pairwise_of_forall fun _ _ => Nat.le_refl i)
  · have hzip : (nodes.zipIdx.map (·.2)).Pairwise (· < ·) := by
      rw [List.zipIdx_map_snd]
      exact List.pairwise_lt_range'
    refine (List.pairwise_map.mp hzip).imp fun hlt => ?_
    simp only [List.mem_map]
    rintro _ ⟨p, -, rfl⟩ _ ⟨q, -, rfl⟩
    exact Nat.le_of_lt hlt

/-- Where edges run forward, a resource begins to live where it is made. -/
theorem first_span (hforward : FeedsForward nodes edges) (hx : x ∈ all nodes edges) :
    x.span.first = x.position := by
  have hle : x.span.first ≤ x.position :=
    (Span.contains_iff.mp (contains_span (u := x.origin) List.mem_cons_self)).1
  obtain ⟨u, hu, hfirst⟩ := List.mem_map.mp x.ends_span.first
  obtain ⟨i, n, p, hn, hp, rfl⟩ := mem_all.mp hx
  rcases mem_points.mp hu with rfl | ⟨e, he, hstart, hne, c, hc, rfl⟩
  · exact hfirst.symm
  · obtain ⟨m, hm, hid, -⟩ := consumer?_eq_some hc
    have hlt := hforward e he i c.position n m hn hm ⟨p, hp, hstart⟩ hid.symm (hid ▸ hne)
    rw [← hfirst] at hle
    exact absurd hle (Nat.not_le_of_lt hlt)

theorem first_ascends (hforward : FeedsForward nodes edges) :
    (all nodes edges).Pairwise (·.span.first ≤ ·.span.first) :=
  (position_ascends nodes edges).imp_of_mem fun hx hy h => by
    rwa [first_span hforward hx, first_span hforward hy]

end Logical

/-- A resident has the signature of its bucket. -/
theorem Bucket.Holds.signature {b : Bucket} {x : Logical} {xs : List Logical} (h : b.Holds xs)
    (hx : x ∈ xs) (s : PortSpec) : s.compatible x.spec = s.compatible b.spec := by
  rcases h.spec_compatible hx with rfl | ⟨-, hbx⟩
  · rfl
  · exact Bool.eq_iff_iff.mpr ⟨
      fun hsx => PortSpec.compatible_trans hsx ((PortSpec.compatible_comm ..).trans hbx),
      fun hsb => PortSpec.compatible_trans hsb hbx⟩

namespace Packing

/-! ## Buckets and what is alive -/

/-- How many of some buckets are for images of a signature. -/
def countFor (s : PortSpec) (buckets : List Bucket) : Nat :=
  buckets.countP fun b => s.compatible b.spec

/-- Whether a resource is of a signature and alive at a position. -/
def isAlive (s : PortSpec) (i : Nat) (x : Logical) : Bool :=
  s.compatible x.spec && x.span.contains i

variable {strategy : Strategy} {xs : List Logical} {x : Logical} {s : PortSpec}

theorem isAlive_iff {i : Nat} : isAlive s i x = true ↔
    s.compatible x.spec = true ∧ x.span.contains i = true := by
  rw [isAlive, Bool.and_eq_true]

/-- No two residents of a bucket are alive at one position. -/
theorem countP_isAlive_le (strategy : Strategy) (xs : List Logical) (s : PortSpec) (i : Nat) :
    xs.countP (isAlive s i) ≤ countFor s (placeAll strategy xs) := by
  rw [← (residents_perm strategy xs).countP_eq]
  refine countP_flatMap_le fun b hb => ?_
  have hholds := holds_placeAll b hb
  split
  · refine countP_le_one (hholds.apart.imp fun hapart ⟨hx, hy⟩ => ?_)
    have hmeet := Span.overlaps_iff.mpr ⟨i, (isAlive_iff.mp hx).2, (isAlive_iff.mp hy).2⟩
    exact Bool.false_ne_true (hapart.symm.trans hmeet)
  · next hspec =>
    refine Nat.le_of_eq (List.countP_eq_zero.mpr fun x hx halive => hspec ?_)
    exact hholds.signature hx s ▸ (isAlive_iff.mp halive).1

/-- Where a resource begins to live after all that were placed before it, a bucket of its signature
that refuses it has a resident that is alive there. -/
theorem exists_resident_alive (hs : s.payload.isAliasable = true) (hx : s.compatible x.spec = true)
    (hfirst : ∀ y ∈ xs, y.span.first ≤ x.span.first) {b : Bucket} (hb : b ∈ placeAll strategy xs)
    (hspec : s.compatible b.spec = true) (hrefused : b.accepts x = false) :
    ∃ y ∈ residents strategy xs b.id, isAlive s x.span.first y = true := by
  have hholds := holds_placeAll b hb
  have hmeet : b.span.overlaps x.span = true := by
    have hbx := PortSpec.compatible_trans ((PortSpec.compatible_comm ..).trans hspec) hx
    have hpayload : s.payload = x.payload := (PortSpec.compatible_iff.mp hx).1
    exact Bucket.overlaps_of_refused (by rwa [Logical.isAliasable, ← hpayload]) hbx hrefused
  -- The resident that is used last in the bucket is still alive.
  obtain ⟨u, hu, hlast⟩ := List.mem_map.mp (ends_placeAll b hb).last
  obtain ⟨y, hy, huy⟩ := hholds.mem_points.mp hu
  have hylast := (Span.contains_iff.mp (Logical.contains_span huy)).2
  have hyfirst := hfirst y ((residents_sublist ..).subset hy)
  obtain ⟨i, hi, hi'⟩ := Span.overlaps_iff.mp hmeet
  rw [Span.contains_iff] at hi hi'
  have halive : y.span.contains x.span.first = true :=
    Span.contains_iff.mpr ⟨hyfirst, by omega⟩
  exact ⟨y, hy, isAlive_iff.mpr ⟨(hholds.signature hy s).trans hspec, halive⟩⟩

theorem countFor_mergeFirst (s : PortSpec) (x : Logical) (buckets : List Bucket) :
    countFor s (mergeFirst x buckets) = countFor s buckets := by
  unfold countFor
  induction buckets with
  | nil => rfl
  | cons b buckets ih =>
    rw [mergeFirst]
    split
    · rfl
    · rw [List.countP_cons, ih, List.countP_cons]

/-! ## Peaks -/

/-- There is no bucket for a signature, or as many resources of it are alive where one of them
begins as there are buckets. -/
def Peaked (s : PortSpec) (buckets : List Bucket) (xs : List Logical) : Prop :=
  countFor s buckets = 0 ∨
    ∃ x ∈ xs, countFor s buckets ≤ xs.countP (isAlive s x.span.first)

theorem Peaked.concat {buckets buckets' : List Bucket} (h : Peaked s buckets xs) (x : Logical)
    (hcount : countFor s buckets' = countFor s buckets) : Peaked s buckets' (xs ++ [x]) := by
  rw [Peaked, hcount]
  refine h.imp_right fun ⟨y, hy, hle⟩ => ⟨y, List.mem_append_left _ hy, hle.trans ?_⟩
  rw [List.countP_append]
  exact Nat.le_add_right ..

/-- A resource that all buckets refuse begins where there is a peak. -/
theorem peaked_opened (hs : s.payload.isAliasable = true) (hx : s.compatible x.spec = true)
    (hfirst : ∀ y ∈ xs, y.span.first ≤ x.span.first)
    (hrefused : ∀ b ∈ placeAll strategy xs, b.accepts x = false) (id : BucketId) :
    Peaked s (placeAll strategy xs ++ [.single id x]) (xs ++ [x]) := by
  refine .inr ⟨x, by simp, ?_⟩
  rw [countFor, List.countP_append, List.countP_append]
  refine Nat.add_le_add ?_ ?_
  · rw [← (residents_perm strategy xs).countP_eq]
    exact countP_le_flatMap fun b hb hspec =>
      exists_resident_alive hs hx hfirst hb hspec (hrefused b hb)
  · have halive : isAlive s x.span.first x = true :=
      isAlive_iff.mpr ⟨hx, Span.contains_iff.mpr ⟨Nat.le_refl _, x.span.first_le_last⟩⟩
    rw [List.countP_singleton, List.countP_singleton, if_pos halive]
    split <;> omega

theorem peaked_placeAll (hs : s.payload.isAliasable = true)
    (hsorted : xs.Pairwise (·.span.first ≤ ·.span.first)) :
    Peaked s (placeAll .optimized xs) xs := by
  induction xs using List.reverseRecOn with
  | nil => exact .inl rfl
  | append_singleton xs x ih =>
    obtain ⟨hxs, -, hlast⟩ := List.pairwise_append.mp hsorted
    have hfirst : ∀ y ∈ xs, y.span.first ≤ x.span.first := fun y hy =>
      hlast y hy x List.mem_cons_self
    rw [placeAll_concat, place]
    cases htarget : target? .optimized (placeAll .optimized xs) x with
    | some b => exact (ih hxs).concat x (countFor_mergeFirst ..)
    | none =>
      by_cases hx : s.compatible x.spec = true
      · have hpayload : s.payload = x.payload := (PortSpec.compatible_iff.mp hx).1
        have haliasable : x.isAliasable = true := by rwa [Logical.isAliasable, ← hpayload]
        exact peaked_opened hs hx hfirst (accepts_eq_false htarget haliasable) _
      · refine (ih hxs).concat x ?_
        rw [countFor, List.countP_append, List.countP_singleton]
        exact if_neg hx ▸ rfl

/-! ## Images assigned -/

/-- Resources that are alive at one position need images of their own. -/
theorem countP_le_card {ι : Type} [DecidableEq ι] {assigned : List (Logical × ι)} (i : Nat)
    (hassigned : assigned.map (·.1) = xs.filter fun x => s.compatible x.spec)
    (hapart : assigned.Pairwise fun a b => a.1.span.overlaps b.1.span = true → a.2 ≠ b.2) :
    xs.countP (isAlive s i) ≤ (assigned.map (·.2)).toFinset.card := by
  let alive := assigned.filter fun a => a.1.span.contains i
  have hcount : xs.countP (isAlive s i) = (alive.map (·.2)).length := by
    calc xs.countP (isAlive s i)
        = (xs.filter fun x => s.compatible x.spec).countP (·.span.contains i) := by
          rw [List.countP_filter]
          exact List.countP_congr fun x _ => by rw [isAlive, Bool.and_comm]
      _ = assigned.countP fun a => a.1.span.contains i := by
          rw [← hassigned, List.countP_map]
          rfl
      _ = (alive.map (·.2)).length := by rw [List.length_map, List.countP_eq_length_filter]
  have hnodup : (alive.map (·.2)).Nodup := by
    refine List.pairwise_map.mpr ((hapart.filter _).imp_of_mem fun {a b} ha hb hab => hab ?_)
    exact Span.overlaps_iff.mpr ⟨i, (List.mem_filter.mp ha).2, (List.mem_filter.mp hb).2⟩
  rw [hcount, ← List.toFinset_card_of_nodup hnodup]
  refine Finset.card_le_card fun image himage => ?_
  rw [List.mem_toFinset] at himage ⊢
  exact (List.filter_sublist.map _).subset himage

/-- How many resources of a signature are alive at a position. -/
def aliveAt (p : Packing) (s : PortSpec) (i : Nat) : Nat := p.logicals.countP (isAlive s i)

/-- How many buckets there are for a signature. -/
def bucketsFor (p : Packing) (s : PortSpec) : Nat := countFor s p.buckets

/-- Where edges run forward, a signature is given as many buckets as there are resources of it alive
at one position, at the position where they are most. So no assignment of images to these resources
does with fewer, as long as resources with a common position get different ones. Sizes agree as
numbers here: one that is not a number agrees with none, and makes no signature. -/
theorem pack_minimal {nodes : List Node} {edges : List Edge} (hforward : FeedsForward nodes edges)
    (hs : s.payload.isAliasable = true) :
    let packing := pack .optimized nodes edges
    packing.bucketsFor s = (Finset.range nodes.length).sup (packing.aliveAt s) ∧
    ∀ (ι : Type) [DecidableEq ι] (assigned : List (Logical × ι)),
      assigned.map (·.1) = (packing.logicals.filter fun x => s.compatible x.spec) →
      assigned.Pairwise (fun a b => a.1.span.overlaps b.1.span = true → a.2 ≠ b.2) →
      packing.bucketsFor s ≤ (assigned.map (·.2)).toFinset.card := by
  intro packing
  have hle : ∀ i, packing.aliveAt s i ≤ packing.bucketsFor s :=
    countP_isAlive_le .optimized packing.logicals s
  rcases peaked_placeAll hs (Logical.first_ascends hforward) with hzero | ⟨x, hx, hpeak⟩
  · have hnone : packing.bucketsFor s = 0 := hzero
    exact ⟨le_antisymm (by omega) (Finset.sup_le fun i _ => hle i), by omega⟩
  · have hpeak : packing.bucketsFor s ≤ packing.aliveAt s x.span.first := hpeak
    have hposition : x.span.first < nodes.length := by
      obtain ⟨n, hn, -⟩ := Logical.getElem?_position hx (u := x.origin) List.mem_cons_self
      rw [Logical.first_span hforward hx]
      exact (List.getElem?_eq_some_iff.mp hn).1
    refine ⟨le_antisymm (hpeak.trans ?_) (Finset.sup_le fun i _ => hle i),
      fun ι _ assigned hassigned hapart => hpeak.trans ?_⟩
    · exact Finset.le_sup (f := packing.aliveAt s) (Finset.mem_range.mpr hposition)
    · exact countP_le_card _ hassigned hapart

/-- A chain of six passes of one signature. The third one's image is read again by the last. -/
def relay : List Node × List Edge :=
  let node (id : NodeId) : Node :=
    { id, name := "Pass", kind := .gaussianBlur,
      ports := [⟨10 * id, .imageInput "In" .rgba16Float, true⟩,
        ⟨10 * id + 1, .imageOutput "Out" .rgba16Float, false⟩] }
  let link (id : EdgeId) (a b : NodeId) : Edge :=
    ⟨id, ⟨a, 10 * a + 1, "Out"⟩, ⟨b, 10 * b, "In"⟩, .image⟩
  ([0, 1, 2, 3, 4, 5].map node, [link 80 0 1, link 81 1 2, link 82 2 3, link 83 3 4, link 84 4 5,
    link 85 2 5])

/-- Six images are made, and three allocations are needed where the fifth pass reads one and makes
another. No assignment does with fewer. -/
theorem relay_minimal :
    let packing := pack .optimized relay.1 relay.2
    let s : PortSpec := .imageOutput "Out" .rgba16Float
    FeedsForward relay.1 relay.2 ∧ s.payload.isAliasable = true ∧ packing.logicalCount = 6 ∧
      packing.aliveAt s 4 = 3 ∧ (Finset.range relay.1.length).sup (packing.aliveAt s) = 3 ∧
      ∀ (ι : Type) [DecidableEq ι] (assigned : List (Logical × ι)),
        assigned.map (·.1) = (packing.logicals.filter fun x => s.compatible x.spec) →
        assigned.Pairwise (fun a b => a.1.span.overlaps b.1.span = true → a.2 ≠ b.2) →
        3 ≤ (assigned.map (·.2)).toFinset.card := by
  intro packing s
  have horder : inOrder relay.1 relay.2 = .ok relay.1 := rfl
  have hforward : FeedsForward relay.1 relay.2 := .of_inOrder (by decide) horder
  have hcount : packing.bucketsFor s = 3 := by decide +kernel
  obtain ⟨hmost, hleast⟩ := pack_minimal hforward (s := s) rfl
  exact ⟨hforward, rfl, rfl, by decide +kernel, hmost.symm.trans hcount,
    fun ι _ assigned hassigned hapart => hcount ▸ hleast ι assigned hassigned hapart⟩

end Packing

end FrameGraph
