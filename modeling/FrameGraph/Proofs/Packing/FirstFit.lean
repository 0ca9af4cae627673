import FrameGraph.Proofs.Packing.Sharing
import Mathlib.Order.Bounds.Defs

/-!
# First fit

A resource that may be aliased goes to the first bucket that is open to it at that time
(`Packing.home_isLeast`). From then on buckets only grow (`Bucket.Grows`), so that a bucket which
has refused a resource goes on to refuse it. In the packing that comes out, every earlier bucket of
a resource's signature meets its span (`Packing.pack_first_fit`). This needs no order of the nodes:
edges may run backward, and spans begin anywhere.
-/

namespace FrameGraph

namespace Bucket

/-- The second bucket is what has become of the first: it may cover more positions. -/
structure Grows (b c : Bucket) : Prop where
  id : c.id = b.id
  origin : c.origin = b.origin
  covers : ∀ i, b.span.contains i = true → c.span.contains i = true

variable {a b c : Bucket} {x : Logical}

theorem Grows.refl (b : Bucket) : b.Grows b := ⟨rfl, rfl, fun _ hi => hi⟩

theorem Grows.trans (hab : a.Grows b) (hbc : b.Grows c) : a.Grows c :=
  ⟨hbc.id.trans hab.id, hbc.origin.trans hab.origin, fun i hi => hbc.covers i (hab.covers i hi)⟩

theorem grows_merge (b : Bucket) (x : Logical) : b.Grows (b.merge x) :=
  ⟨rfl, rfl, fun _ => Span.contains_hull_left⟩

theorem Grows.overlaps (h : b.Grows c) {s : Span} (hs : b.span.overlaps s = true) :
    c.span.overlaps s = true := by
  obtain ⟨i, hi, hi'⟩ := Span.overlaps_iff.mp hs
  exact Span.overlaps_iff.mpr ⟨i, h.covers i hi, hi'⟩

end Bucket

namespace Packing

variable {strategy : Strategy} {buckets : List Bucket} {xs placed later : List Logical}
  {x : Logical} {b c : Bucket}

/-! ## Buckets over time -/

theorem exists_grows_place (strategy : Strategy) (x : Logical) (hb : b ∈ buckets) :
    ∃ c ∈ place strategy buckets x, b.Grows c := by
  rcases place_cases strategy buckets x with ⟨-, hplace⟩ | ⟨before, a, after, rfl, -, -, hplace⟩
  · rw [hplace]
    exact ⟨b, List.mem_append_left _ hb, .refl b⟩
  · rw [hplace]
    rcases List.mem_append.mp hb with hb | hb
    · exact ⟨b, List.mem_append_left _ hb, .refl b⟩
    · rcases List.mem_cons.mp hb with rfl | hb
      · exact ⟨b.merge x, by simp, b.grows_merge x⟩
      · exact ⟨b, by simp [hb], .refl b⟩

/-- A bucket is kept, whatever is placed later. -/
theorem exists_grows (later : List Logical) (hb : b ∈ placeAll strategy placed) :
    ∃ c ∈ placeAll strategy (placed ++ later), b.Grows c := by
  induction later using List.reverseRecOn with
  | nil =>
    rw [List.append_nil]
    exact ⟨b, hb, .refl b⟩
  | append_singleton later x ih =>
    obtain ⟨c, hc, hbc⟩ := ih
    obtain ⟨d, hd, hcd⟩ := exists_grows_place strategy x hc
    rw [← List.append_assoc, placeAll_concat]
    exact ⟨d, hd, hbc.trans hcd⟩

/-- A bucket whose number was given out before has grown out of the one that had it then. -/
theorem exists_grows_of_lt (hc : c ∈ placeAll strategy (placed ++ later))
    (hid : c.id < (placeAll strategy placed).length) :
    ∃ b ∈ placeAll strategy placed, b.Grows c := by
  obtain ⟨b, hb, hbid⟩ := exists_id_eq hid
  obtain ⟨d, hd, hbd⟩ := exists_grows later hb
  have hdc : d = c :=
    List.inj_on_of_nodup_map (ids_nodup strategy _) hd hc (hbd.id.trans hbid)
  subst hdc
  exact ⟨b, hb, hbd⟩

/-! ## The first that is open -/

/-- The numbers under which a resource can be placed: those of the buckets that accept it, and the
next one that is free. -/
def openings (buckets : List Bucket) (x : Logical) : Set BucketId :=
  {i | i = buckets.length ∨ ∃ b ∈ buckets, b.id = i ∧ b.accepts x = true}

theorem ids_ascend (strategy : Strategy) (xs : List Logical) :
    (placeAll strategy xs).Pairwise (·.id < ·.id) := by
  have hids : ((placeAll strategy xs).map (·.id)).Pairwise (· < ·) := by
    rw [ids_placeAll]
    exact List.pairwise_lt_range
  exact List.pairwise_map.mp hids

theorem home_isLeast (placed : List Logical) (hx : x.isAliasable = true) :
    IsLeast (openings (placeAll .optimized placed) x)
      (home .optimized (placeAll .optimized placed) x) := by
  unfold home
  cases htarget : target? .optimized (placeAll .optimized placed) x with
  | none =>
    refine ⟨.inl rfl, ?_⟩
    rintro i (rfl | ⟨b, hb, rfl, ha⟩)
    · exact Nat.le_refl _
    · exact absurd ha (Bool.eq_false_iff.mp (accepts_eq_false htarget hx b hb))
  | some b =>
    obtain ⟨hb, ha⟩ := target?_mem htarget
    obtain ⟨-, -, hfind⟩ := target?_eq_some htarget
    obtain ⟨-, before, after, hsplit, hbefore⟩ := List.find?_eq_some_iff_append.mp hfind
    refine ⟨.inr ⟨b, hb, rfl, ha⟩, ?_⟩
    rintro i (rfl | ⟨c, hc, rfl, hac⟩)
    · exact Nat.le_of_lt (id_lt hb)
    · -- What stands before the first that accepts has refused, and what stands behind is later.
      have hascend := ids_ascend .optimized placed
      rw [hsplit] at hc hascend
      rcases List.mem_append.mp hc with hc | hc
      · have hrefused := hbefore c hc
        simp [hac] at hrefused
      · rcases List.mem_cons.mp hc with rfl | hc
        · exact Nat.le_refl _
        · have hafter := (List.pairwise_cons.mp (List.pairwise_append.mp hascend).2.1).1
          exact Nat.le_of_lt (hafter c hc)

/-! ## What is refused stays refused -/

/-- In the buckets that come out, those that were passed over for a resource meet its span. -/
theorem overlaps_of_lt_home (hx : x.isAliasable = true)
    (hc : c ∈ placeAll .optimized (placed ++ later))
    (hlt : c.id < home .optimized (placeAll .optimized placed) x)
    (hspec : c.spec.compatible x.spec = true) : c.span.overlaps x.span = true := by
  have hleast := (home_isLeast placed hx).2
  have hopen : c.id < (placeAll .optimized placed).length :=
    Nat.lt_of_lt_of_le hlt (hleast (.inl rfl))
  obtain ⟨b, hb, hgrows⟩ := exists_grows_of_lt hc hopen
  have hbspec : b.spec.compatible x.spec = true := by
    rw [Bucket.spec, ← hgrows.origin]
    exact hspec
  have hrefused : b.accepts x = false := by
    rw [Bool.eq_false_iff]
    intro ha
    exact Nat.not_le_of_lt hlt (hleast (.inr ⟨b, hb, hgrows.id.symm, ha⟩))
  exact hgrows.overlaps (Bucket.overlaps_of_refused hx hbspec hrefused)

/-- First fit leaves no earlier opening, whatever nodes and edges are packed. Every resource that
may be aliased is placed under the least number that is open to it. In the packing that comes out
no earlier bucket could take it: all those of its signature meet its span. -/
theorem pack_first_fit (nodes : List Node) (edges : List Edge) :
    let packing := pack .optimized nodes edges
    (∀ placed x later, packing.logicals = placed ++ x :: later → x.isAliasable = true →
      ∃ b ∈ packing.buckets, x ∈ residents .optimized packing.logicals b.id ∧
        IsLeast (openings (placeAll .optimized placed) x) b.id) ∧
    ∀ b ∈ packing.buckets,
      b.members = (residents .optimized packing.logicals b.id).map (·.port) ∧
      ∀ x ∈ residents .optimized packing.logicals b.id, x.isAliasable = true →
        ∀ a ∈ packing.buckets, a.id < b.id → a.accepts x = false ∧
          (a.spec.compatible x.spec = true → a.span.overlaps x.span = true) := by
  intro packing
  constructor
  · intro placed x later hsplit hx
    let home := home .optimized (placeAll .optimized placed) x
    have hresident : x ∈ residents .optimized packing.logicals home :=
      mem_residents.mpr ⟨placed, later, hsplit, rfl⟩
    have hhome : home < (placeAll .optimized packing.logicals).length := by
      by_contra hout
      rw [residents_eq_nil (Nat.le_of_not_lt hout)] at hresident
      cases hresident
    obtain ⟨b, hb, hid⟩ := exists_id_eq hhome
    rw [← hid] at hresident
    refine ⟨b, hb, hresident, ?_⟩
    rw [hid]
    exact home_isLeast placed hx
  · intro b hb
    refine ⟨(holds_placeAll b hb).members, ?_⟩
    intro x hmem hx a ha hlt
    obtain ⟨placed, later, hsplit, hhome⟩ := mem_residents.mp hmem
    have hmeet : a.spec.compatible x.spec = true → a.span.overlaps x.span = true := by
      have ha : a ∈ placeAll .optimized (placed ++ x :: later) := hsplit ▸ ha
      rw [← hhome] at hlt
      exact overlaps_of_lt_home hx ha hlt
    refine ⟨?_, hmeet⟩
    rw [Bool.eq_false_iff]
    intro haccepts
    obtain ⟨-, hapart, hspec⟩ := Bucket.accepts_iff.mp haccepts
    exact Bool.false_ne_true (hapart.symm.trans (hmeet hspec))

/-- Five passes of one signature in an order that their edges do not respect: the fourth is read by
the second. -/
def backward : List Node × List Edge :=
  let node (id : NodeId) : Node :=
    { id, name := "Pass", kind := .gaussianBlur,
      ports := [⟨10 * id, .imageInput "In" .rgba16Float, true⟩,
        ⟨10 * id + 1, .imageOutput "Out" .rgba16Float, false⟩] }
  let link (id : EdgeId) (a b : NodeId) : Edge :=
    ⟨id, ⟨a, 10 * a + 1, "Out"⟩, ⟨b, 10 * b, "In"⟩, .image⟩
  ([0, 1, 2, 3, 4].map node, [link 80 0 2, link 81 3 1])

/-- The image of the fourth pass is live from the second pass on, and is the first of its bucket.
The two buckets before are of its signature, and neither can take it: the first was live up to the
third pass when it refused, and is now live up to the fifth. -/
theorem backward_first_fit :
    let packing := pack .optimized backward.1 backward.2
    ∃ b ∈ packing.buckets, ∃ x ∈ residents .optimized packing.logicals b.id,
      x.isAliasable = true ∧ b.id = 2 ∧ x.position = 3 ∧ x.span.first = 1 ∧
      ∃ a ∈ packing.buckets, a.id = 0 ∧ a.span.last = 4 ∧
        a.spec.compatible x.spec = true ∧ a.span.overlaps x.span = true := by
  intro packing
  have hb := List.get_mem packing.buckets ⟨2, by decide +kernel⟩
  have ha := List.get_mem packing.buckets ⟨0, by decide +kernel⟩
  have hx := List.get_mem (residents .optimized packing.logicals 2) ⟨0, by decide +kernel⟩
  have hspec : (packing.buckets.get ⟨0, by decide +kernel⟩).spec.compatible
      ((residents .optimized packing.logicals 2).get ⟨0, by decide +kernel⟩).spec = true := by
    decide +kernel
  obtain ⟨-, hrefused⟩ := (pack_first_fit backward.1 backward.2).2 _ hb
  obtain ⟨-, hmeet⟩ := hrefused _ hx (by decide +kernel) _ ha (by decide +kernel)
  exact ⟨_, hb, _, hx, by decide +kernel, by decide +kernel, by decide +kernel, by decide +kernel,
    _, ha, by decide +kernel, by decide +kernel, hspec, hmeet hspec⟩

end Packing

end FrameGraph
