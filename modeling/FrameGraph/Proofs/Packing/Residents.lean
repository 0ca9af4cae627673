import FrameGraph.Packing
import Mathlib.Data.List.Induction
import Mathlib.Data.List.Nodup
import Mathlib.Data.List.Pairwise
import Mathlib.Data.List.Perm.Basic

/-!
# The residents of buckets

A bucket keeps the ports of the logical resources it was given, but not the resources. Its
residents are those resources, read off the run of the packer that placed them
(`Packing.residents`). What every acceptance keeps holds of every bucket and its residents
(`Packing.placeAll_induct`). `Bucket.Holds` says what a bucket owes to them: every acceptance keeps
it (`Bucket.Holds.merge`), so every bucket of every packing holds its residents
(`Packing.holds_placeAll`). The residents of all buckets are the logical resources, each as often as
it was placed (`Packing.residents_perm`).
-/

namespace FrameGraph

/-- An entry filed under one of some distinct keys is listed once. -/
theorem flatMap_ite_eq_singleton {β : Type} {is : List Nat} {i : Nat} (his : is.Nodup)
    (hi : i ∈ is) (b : β) : is.flatMap (fun j => if i = j then [b] else []) = [b] := by
  obtain ⟨before, after, rfl⟩ := List.append_of_mem hi
  rw [List.nodup_middle, List.nodup_cons] at his
  have hnil : ∀ js ⊆ before ++ after, js.flatMap (fun j => if i = j then [b] else []) = [] :=
    fun js hjs => List.flatMap_eq_nil_iff.mpr fun j hj =>
      if_neg fun hij : i = j => his.1 (hij ▸ hjs hj)
  rw [List.flatMap_append, List.flatMap_cons, hnil before (List.subset_append_left ..),
    hnil after (List.subset_append_right ..), if_pos rfl]
  rfl

namespace Logical

/-- Every use of a resource lies in its span. -/
theorem contains_span {x : Logical} {u : UsagePoint} (hu : u ∈ x.points) :
    x.span.contains u.position = true := by
  have hgrow : ∀ (cs : List Consumer) (s : Span) (i : Nat),
      (s.contains i = true ∨ ∃ c ∈ cs, c.position = i) →
        (cs.foldl (fun s c => s.extend c.position) s).contains i = true := by
    intro cs
    induction cs with
    | nil =>
      rintro s i (h | ⟨c, hc, _⟩)
      · exact h
      · cases hc
    | cons c cs ih =>
      intro s i h
      refine ih _ i ?_
      rcases h with h | ⟨c', hc, rfl⟩
      · exact .inl (Span.contains_hull_left h)
      · rcases List.mem_cons.mp hc with rfl | hc
        · exact .inl (Span.contains_hull_right (by simp [Span.point]))
        · exact .inr ⟨c', hc, rfl⟩
  rcases List.mem_cons.mp hu with rfl | hu
  · exact hgrow _ _ _ (.inl (by simp [Span.point, origin]))
  · obtain ⟨c, hc, rfl⟩ := List.mem_map.mp hu
    exact hgrow _ _ _ (.inr ⟨c, hc, rfl⟩)

end Logical

namespace Bucket

/-- What a bucket owes to the resources placed in it: it knows their ports and all their uses,
its span covers theirs, theirs keep apart, and each of them fits the first. -/
structure Holds (b : Bucket) (xs : List Logical) : Prop where
  members : b.members = xs.map (·.port)
  points : b.points.Perm (xs.flatMap Logical.points)
  covers : ∀ x ∈ xs, ∀ i, x.span.contains i = true → b.span.contains i = true
  apart : xs.Pairwise fun x y => x.span.overlaps y.span = false
  first : ∃ rest, xs = b.origin :: rest ∧ ∀ x ∈ rest,
    b.origin.isAliasable = true ∧ b.spec.compatible x.spec = true

theorem sortPoints_perm (points : List UsagePoint) : (sortPoints points).Perm points :=
  List.mergeSort_perm ..

theorem isUsedAt_single (id : BucketId) (x : Logical) (i : Nat) :
    (single id x).isUsedAt i = x.points.any (·.position == i) :=
  (sortPoints_perm x.points).any_eq

theorem isUsedAt_merge (b : Bucket) (x : Logical) (i : Nat) :
    (b.merge x).isUsedAt i = (b.isUsedAt i || x.points.any (·.position == i)) := by
  rw [isUsedAt, merge, (sortPoints_perm _).any_eq, List.any_append, isUsedAt]

theorem holds_single (id : BucketId) (x : Logical) : (single id x).Holds [x] where
  members := rfl
  points := by simpa [single] using sortPoints_perm x.points
  covers y hy i hi := by
    cases List.mem_singleton.mp hy
    exact hi
  apart := List.pairwise_singleton ..
  first := ⟨[], rfl, fun _ h => nomatch h⟩

theorem accepts_iff {b : Bucket} {x : Logical} :
    b.accepts x = true ↔ b.origin.isAliasable = true ∧ b.span.overlaps x.span = false ∧
      b.spec.compatible x.spec = true := by
  simp only [accepts, Bool.and_eq_true, Bool.not_eq_true', and_assoc]

namespace Holds

variable {b : Bucket} {x : Logical} {xs : List Logical}

/-- A span that keeps apart from the bucket's keeps apart from the residents'. -/
theorem overlaps_eq_false (h : b.Holds xs) (hx : x ∈ xs) {s : Span}
    (hs : b.span.overlaps s = false) : x.span.overlaps s = false := by
  rw [Bool.eq_false_iff, ne_eq, Span.overlaps_iff] at *
  rintro ⟨i, hi, hi'⟩
  exact hs ⟨i, h.covers x hx i hi, hi'⟩

theorem merge (h : b.Holds xs) (ha : b.accepts x = true) : (b.merge x).Holds (xs ++ [x]) := by
  obtain ⟨haliasable, hspan, hspec⟩ := accepts_iff.mp ha
  refine ⟨by simp [Bucket.merge, h.members], ?_, fun y hy i hi => ?_, ?_, ?_⟩
  · refine (sortPoints_perm _).trans ?_
    rw [List.flatMap_append, List.flatMap_singleton]
    exact h.points.append_right _
  · rcases List.mem_append.mp hy with hy | hy
    · exact Span.contains_hull_left (h.covers y hy i hi)
    · cases List.mem_singleton.mp hy
      exact Span.contains_hull_right hi
  · refine List.pairwise_append.mpr ⟨h.apart, List.pairwise_singleton .., fun y hy z hz => ?_⟩
    cases List.mem_singleton.mp hz
    exact h.overlaps_eq_false hy hspan
  · obtain ⟨rest, rfl, hrest⟩ := h.first
    refine ⟨rest ++ [x], rfl, fun y hy => ?_⟩
    rcases List.mem_append.mp hy with hy | hy
    · exact hrest y hy
    · cases List.mem_singleton.mp hy
      exact ⟨haliasable, hspec⟩

/-- Residents whose spans meet are one. -/
theorem eq_of_overlaps (h : b.Holds xs) {y : Logical} (hx : x ∈ xs) (hy : y ∈ xs)
    (hxy : x.span.overlaps y.span = true) : x = y := by
  have : Std.Symm fun x y : Logical => x.span.overlaps y.span = false :=
    ⟨fun _ _ hapart => Span.overlaps_comm.trans hapart⟩
  by_contra hne
  exact Bool.false_ne_true ((h.apart.forall hx hy hne).symm.trans hxy)

theorem mem_points (h : b.Holds xs) {u : UsagePoint} :
    u ∈ b.points ↔ ∃ x ∈ xs, u ∈ x.points := by
  rw [h.points.mem_iff, List.mem_flatMap]

theorem spec_compatible (h : b.Holds xs) (hx : x ∈ xs) :
    x = b.origin ∨ b.origin.isAliasable = true ∧ b.spec.compatible x.spec = true := by
  obtain ⟨rest, rfl, hrest⟩ := h.first
  rcases List.mem_cons.mp hx with hx | hx
  · exact .inl hx
  · exact .inr (hrest x hx)

theorem payload_eq (h : b.Holds xs) (hx : x ∈ xs) : b.payload = x.payload := by
  rcases h.spec_compatible hx with rfl | ⟨_, hc⟩
  · rfl
  · exact (PortSpec.compatible_iff.mp hc).1

end Holds

end Bucket

namespace Packing

/-! ## Placing one resource -/

/-- The number of the bucket that a logical resource is placed in. -/
def home (strategy : Strategy) (buckets : List Bucket) (x : Logical) : BucketId :=
  match target? strategy buckets x with
  | some b => b.id
  | none => buckets.length

/-- The logical resources placed in a bucket, in order, of those placed from some buckets on. -/
def residentsFrom (strategy : Strategy) (buckets : List Bucket) (id : BucketId) :
    List Logical → List Logical
  | [] => []
  | x :: xs =>
    let rest := residentsFrom strategy (place strategy buckets x) id xs
    if home strategy buckets x = id then x :: rest else rest

/-- The logical resources placed in a bucket, in order. -/
def residents (strategy : Strategy) (xs : List Logical) (id : BucketId) : List Logical :=
  residentsFrom strategy [] id xs

variable {strategy : Strategy} {buckets : List Bucket} {x : Logical} {xs : List Logical}

theorem target?_eq_some {b : Bucket} (h : target? strategy buckets x = some b) :
    strategy = .optimized ∧ x.isAliasable = true ∧ buckets.find? (·.accepts x) = some b := by
  unfold target? at h
  split at h
  · cases h
  · split at h
    · next hx => exact ⟨rfl, hx, h⟩
    · cases h

theorem mergeFirst_append {before after : List Bucket} {b : Bucket}
    (hbefore : ∀ a ∈ before, a.accepts x = false) (hb : b.accepts x = true) :
    mergeFirst x (before ++ b :: after) = before ++ b.merge x :: after := by
  induction before with
  | nil => simp only [List.nil_append, mergeFirst, hb, if_true]
  | cons a before ih =>
    have ha := hbefore a List.mem_cons_self
    have hrest := ih fun a' ha' => hbefore a' (List.mem_cons_of_mem _ ha')
    simp only [List.cons_append, mergeFirst, ha, Bool.false_eq_true, if_false, hrest]

/-- A resource opens a bucket, or it is merged into the first bucket that accepts it. -/
theorem place_cases (strategy : Strategy) (buckets : List Bucket) (x : Logical) :
    (home strategy buckets x = buckets.length ∧
      place strategy buckets x = buckets ++ [.single buckets.length x]) ∨
    ∃ before b after, buckets = before ++ b :: after ∧ b.accepts x = true ∧
      home strategy buckets x = b.id ∧
      place strategy buckets x = before ++ b.merge x :: after := by
  unfold home place
  cases htarget : target? strategy buckets x with
  | none => exact .inl ⟨rfl, rfl⟩
  | some b =>
    obtain ⟨_, _, hfind⟩ := target?_eq_some htarget
    obtain ⟨hb, before, after, rfl, hbefore⟩ := List.find?_eq_some_iff_append.mp hfind
    refine .inr ⟨before, b, after, rfl, hb, rfl, mergeFirst_append (fun a ha => ?_) hb⟩
    simpa using hbefore a ha

/-! ## Placing all resources -/

theorem placeAll_concat (strategy : Strategy) (xs : List Logical) (x : Logical) :
    placeAll strategy (xs ++ [x]) = place strategy (placeAll strategy xs) x :=
  List.foldl_concat ..

theorem residents_concat (strategy : Strategy) (xs : List Logical) (x : Logical) (id : BucketId) :
    residents strategy (xs ++ [x]) id = residents strategy xs id ++
      if home strategy (placeAll strategy xs) x = id then [x] else [] := by
  have hfrom : ∀ buckets, residentsFrom strategy buckets id (xs ++ [x]) =
      residentsFrom strategy buckets id xs ++
        if home strategy (xs.foldl (place strategy) buckets) x = id then [x] else [] := by
    induction xs with
    | nil => intro buckets; rfl
    | cons y ys ih =>
      intro buckets
      simp only [List.cons_append, residentsFrom, ih, List.foldl_cons]
      split <;> rfl
  exact hfrom []

/-- The residents of a bucket are the resources that found their home in it. -/
theorem mem_residents {id : BucketId} : x ∈ residents strategy xs id ↔
    ∃ placed later, xs = placed ++ x :: later ∧
      home strategy (placeAll strategy placed) x = id := by
  induction xs using List.reverseRecOn with
  | nil => simp [residents, residentsFrom]
  | append_singleton xs y ih =>
    rw [residents_concat, List.mem_append, ih]
    constructor
    · rintro (⟨placed, later, rfl, hhome⟩ | hlast)
      · exact ⟨placed, later ++ [y], by simp, hhome⟩
      · split at hlast
        · next hhome =>
          cases List.mem_singleton.mp hlast
          exact ⟨xs, [], rfl, hhome⟩
        · cases hlast
    · rintro ⟨placed, later, hsplit, hhome⟩
      rcases List.eq_nil_or_concat later with rfl | ⟨later, z, rfl⟩
      · obtain ⟨rfl, hyx⟩ := List.append_inj' hsplit rfl
        cases List.singleton_inj.mp hyx
        rw [if_pos hhome]
        exact .inr List.mem_cons_self
      · rw [List.concat_eq_append, ← List.cons_append, ← List.append_assoc] at hsplit
        exact .inl ⟨placed, later, (List.append_inj' hsplit rfl).1, hhome⟩

theorem residents_sublist (strategy : Strategy) (xs : List Logical) (id : BucketId) :
    (residents strategy xs id).Sublist xs := by
  have hfrom : ∀ buckets, (residentsFrom strategy buckets id xs).Sublist xs := by
    induction xs with
    | nil => exact fun _ => .slnil
    | cons y ys ih =>
      intro buckets
      simp only [residentsFrom]
      split
      · exact (ih _).cons_cons y
      · exact (ih _).cons y
  exact hfrom []

/-- Buckets are numbered as they stand. -/
theorem ids_placeAll (strategy : Strategy) (xs : List Logical) :
    (placeAll strategy xs).map (·.id) = List.range (placeAll strategy xs).length := by
  induction xs using List.reverseRecOn with
  | nil => rfl
  | append_singleton xs x ih =>
    rw [placeAll_concat]
    rcases place_cases strategy (placeAll strategy xs) x with
      ⟨_, hplace⟩ | ⟨before, b, after, hsplit, _, _, hplace⟩
    · rw [hplace, List.map_append, ih, List.length_append, List.length_singleton, List.range_succ]
      rfl
    · rw [hsplit] at ih
      rw [hplace]
      simpa using ih

theorem ids_nodup (strategy : Strategy) (xs : List Logical) :
    ((placeAll strategy xs).map (·.id)).Nodup :=
  ids_placeAll strategy xs ▸ List.nodup_range

theorem id_lt {b : Bucket} (hb : b ∈ placeAll strategy xs) :
    b.id < (placeAll strategy xs).length := by
  have hmem := List.mem_map_of_mem (f := Bucket.id) hb
  rw [ids_placeAll] at hmem
  exact List.mem_range.mp hmem

theorem exists_id_eq {id : BucketId} (hid : id < (placeAll strategy xs).length) :
    ∃ b ∈ placeAll strategy xs, b.id = id := by
  have hmem : id ∈ (placeAll strategy xs).map (·.id) := by
    rw [ids_placeAll]
    exact List.mem_range.mpr hid
  exact List.mem_map.mp hmem

/-- No resource is placed in a bucket that is not open yet. -/
theorem residents_eq_nil {id : BucketId} (hid : (placeAll strategy xs).length ≤ id) :
    residents strategy xs id = [] := by
  induction xs using List.reverseRecOn with
  | nil => rfl
  | append_singleton xs x ih =>
    rw [placeAll_concat] at hid
    rw [residents_concat]
    rcases place_cases strategy (placeAll strategy xs) x with
      ⟨hhome, hplace⟩ | ⟨before, b, after, hsplit, _, hhome, hplace⟩
    · rw [hplace, List.length_append, List.length_singleton] at hid
      rw [ih (Nat.le_of_succ_le hid), if_neg (by rw [hhome]; exact Nat.ne_of_lt hid)]
      rfl
    · have hlen : (placeAll strategy xs).length ≤ id := by
        rw [hplace] at hid
        simpa [hsplit] using hid
      have hlt : b.id < (placeAll strategy xs).length := id_lt (by simp [hsplit])
      rw [ih hlen, if_neg (by rw [hhome]; exact Nat.ne_of_lt (Nat.lt_of_lt_of_le hlt hlen))]
      rfl

/-- What holds of a bucket with its first resident, and goes on to hold when it accepts another one,
holds of every bucket and its residents. -/
theorem placeAll_induct {P : Bucket → List Logical → Prop}
    (hsingle : ∀ id x, P (.single id x) [x])
    (hmerge : ∀ b xs x, P b xs → b.accepts x = true → P (b.merge x) (xs ++ [x])) :
    ∀ b ∈ placeAll strategy xs, P b (residents strategy xs b.id) := by
  induction xs using List.reverseRecOn with
  | nil => exact fun _ h => nomatch h
  | append_singleton xs x ih =>
    intro c hc
    rw [placeAll_concat] at hc
    rw [residents_concat]
    -- Buckets of other numbers than the one that takes the resource keep their residents.
    have hother : c ∈ placeAll strategy xs → home strategy (placeAll strategy xs) x ≠ c.id →
        P c (residents strategy xs c.id ++
          if home strategy (placeAll strategy xs) x = c.id then [x] else []) := by
      intro hmem hne
      rw [if_neg hne, List.append_nil]
      exact ih c hmem
    rcases place_cases strategy (placeAll strategy xs) x with
      ⟨hhome, hplace⟩ | ⟨before, b, after, hsplit, ha, hhome, hplace⟩
    · rw [hplace] at hc
      rcases List.mem_append.mp hc with hc | hc
      · exact hother hc (by rw [hhome]; exact (Nat.ne_of_lt (id_lt hc)).symm)
      · cases List.mem_singleton.mp hc
        rw [Bucket.id_single, residents_eq_nil (Nat.le_refl _), if_pos hhome]
        exact hsingle ..
    · have hnodup := ids_nodup strategy xs
      rw [hsplit, List.map_append, List.map_cons, List.nodup_middle, List.nodup_cons] at hnodup
      have hne : ∀ a ∈ before ++ after, b.id ≠ a.id := by
        intro a ha heq
        exact hnodup.1 (by rw [heq, ← List.map_append]; exact List.mem_map_of_mem ha)
      rw [hplace] at hc
      rcases List.mem_append.mp hc with hc | hc
      · exact hother (by simp [hsplit, hc]) (hhome ▸ hne c (List.mem_append_left _ hc))
      · rcases List.mem_cons.mp hc with rfl | hc
        · rw [Bucket.id_merge, if_pos hhome]
          exact hmerge b _ x (ih b (by simp [hsplit])) ha
        · exact hother (by simp [hsplit, hc]) (hhome ▸ hne c (List.mem_append_right _ hc))

/-- Every bucket of a packing holds its residents. -/
theorem holds_placeAll : ∀ b ∈ placeAll strategy xs, b.Holds (residents strategy xs b.id) :=
  placeAll_induct Bucket.holds_single fun _ _ _ h ha => h.merge ha

/-! ## A bucket for each -/

/-- Without sharing, every resource has a bucket of its own. -/
theorem placeAll_naive (xs : List Logical) :
    placeAll .naive xs = xs.zipIdx.map fun (x, i) => Bucket.single i x := by
  induction xs using List.reverseRecOn with
  | nil => rfl
  | append_singleton xs x ih =>
    have hlength : (placeAll .naive xs).length = xs.length := by rw [ih]; simp
    have hplace : place .naive (placeAll .naive xs) x =
        placeAll .naive xs ++ [.single (placeAll .naive xs).length x] := rfl
    rw [placeAll_concat, hplace, hlength, ih, List.zipIdx_append, List.map_append]
    simp

theorem members_naive {b : Bucket} (hb : b ∈ placeAll .naive xs) : b.members = [b.origin.port] := by
  rw [placeAll_naive] at hb
  obtain ⟨_, -, rfl⟩ := List.mem_map.mp hb
  rfl

/-! ## Every resource has one home -/

theorem length_place_le (strategy : Strategy) (buckets : List Bucket) (x : Logical) :
    buckets.length ≤ (place strategy buckets x).length := by
  rcases place_cases strategy buckets x with ⟨-, hplace⟩ | ⟨before, b, after, rfl, -, -, hplace⟩
  · simp [hplace]
  · simp [hplace]

theorem home_lt (strategy : Strategy) (xs : List Logical) (x : Logical) :
    home strategy (placeAll strategy xs) x < (placeAll strategy (xs ++ [x])).length := by
  rw [placeAll_concat]
  rcases place_cases strategy (placeAll strategy xs) x with
    ⟨hhome, hplace⟩ | ⟨before, b, after, hsplit, -, hhome, hplace⟩
  · simp [hhome, hplace]
  · have hlt : b.id < (placeAll strategy xs).length := id_lt (by simp [hsplit])
    exact hhome ▸ Nat.lt_of_lt_of_le hlt (length_place_le ..)

/-- The resources that were placed are resident each in one bucket. The bound on bucket numbers may
be any, since numbers that are not given out yet have no residents. -/
theorem residents_range_perm (strategy : Strategy) (xs : List Logical) {n : Nat}
    (hn : (placeAll strategy xs).length ≤ n) :
    ((List.range n).flatMap (residents strategy xs)).Perm xs := by
  induction xs using List.reverseRecOn with
  | nil => exact .of_eq (List.flatMap_eq_nil_iff.mpr fun _ _ => rfl)
  | append_singleton xs x ih =>
    have hhome := Nat.lt_of_lt_of_le (home_lt strategy xs x) hn
    have hsplit : residents strategy (xs ++ [x]) = fun id => residents strategy xs id ++
        if home strategy (placeAll strategy xs) x = id then [x] else [] :=
      funext (residents_concat strategy xs x)
    rw [placeAll_concat] at hn
    rw [hsplit]
    refine (List.flatMap_append_perm ..).symm.trans ?_
    rw [flatMap_ite_eq_singleton List.nodup_range (List.mem_range.mpr hhome)]
    exact (ih (Nat.le_trans (length_place_le ..) hn)).append_right _

theorem residents_perm (strategy : Strategy) (xs : List Logical) :
    ((placeAll strategy xs).flatMap fun b => residents strategy xs b.id).Perm xs := by
  have hids : ((placeAll strategy xs).flatMap fun b => residents strategy xs b.id) =
      (List.range (placeAll strategy xs).length).flatMap (residents strategy xs) := by
    rw [← ids_placeAll, List.flatMap_map]
  exact hids ▸ residents_range_perm strategy xs (Nat.le_refl _)

theorem exists_resident (hx : x ∈ xs) :
    ∃ b ∈ placeAll strategy xs, x ∈ residents strategy xs b.id :=
  List.mem_flatMap.mp ((residents_perm strategy xs).symm.subset hx)

/-- Of resources with ports of their own, each is resident in one bucket only. -/
theorem resident_unique (hports : (xs.map (·.port)).Nodup) {y : Logical} {i j : BucketId}
    (hx : x ∈ residents strategy xs i) (hy : y ∈ residents strategy xs j)
    (hport : x.port = y.port) : i = j := by
  let n := (placeAll strategy xs).length + i + j + 1
  have hperm := (residents_range_perm strategy xs (n := n) (by omega)).map (·.port)
  rw [← hperm.nodup_iff, List.map_flatMap, List.nodup_flatMap] at hports
  have : Std.Symm (Function.onFun List.Disjoint fun id =>
      (residents strategy xs id).map (·.port)) := ⟨fun _ _ => List.disjoint_symm⟩
  by_contra hij
  have hi : i ∈ List.range n := List.mem_range.mpr (by omega)
  have hj : j ∈ List.range n := List.mem_range.mpr (by omega)
  have happart := hports.2.forall hi hj hij
  exact happart (List.mem_map_of_mem hx) (hport ▸ List.mem_map_of_mem hy)

end Packing

end FrameGraph
