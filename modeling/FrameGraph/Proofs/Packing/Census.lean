import FrameGraph.Proofs.Packing.Sharing

/-!
# Residents counted

As the residents of all buckets are the logical resources, these can be counted bucket by bucket:
where at most one resident of a bucket counts, there are at most as many as buckets
(`countP_flatMap_le`), and where one of every bucket counts, at least as many (`countP_le_flatMap`).
The span of a bucket begins and ends with a use of a resident (`Packing.ends_placeAll`).
-/

namespace FrameGraph

/-! ## Counting -/

section

variable {α β : Type} {f : α → List β} {p : β → Bool} {q : α → Bool} {as : List α}

theorem countP_flatMap_le (h : ∀ a ∈ as, (f a).countP p ≤ if q a then 1 else 0) :
    (as.flatMap f).countP p ≤ as.countP q := by
  induction as with
  | nil => exact Nat.le_refl _
  | cons a as ih =>
    rw [List.flatMap_cons, List.countP_append, List.countP_cons, Nat.add_comm]
    exact Nat.add_le_add (ih fun b hb => h b (List.mem_cons_of_mem _ hb)) (h a List.mem_cons_self)

theorem countP_le_flatMap (h : ∀ a ∈ as, q a = true → ∃ b ∈ f a, p b = true) :
    as.countP q ≤ (as.flatMap f).countP p := by
  induction as with
  | nil => exact Nat.le_refl _
  | cons a as ih =>
    rw [List.flatMap_cons, List.countP_append, List.countP_cons, Nat.add_comm]
    refine Nat.add_le_add ?_ (ih fun b hb => h b (List.mem_cons_of_mem _ hb))
    split
    · next ha => exact List.countP_pos_iff.mpr (h a List.mem_cons_self ha)
    · exact Nat.zero_le _

theorem countP_le_one {xs : List β} (h : xs.Pairwise fun x y => ¬ (p x = true ∧ p y = true)) :
    xs.countP p ≤ 1 := by
  induction h with
  | nil => exact Nat.zero_le _
  | @cons x xs hx _ ih =>
    rw [List.countP_cons]
    split
    · next hpx =>
      have hnone : xs.countP p = 0 := List.countP_eq_zero.mpr fun y hy hpy => hx y hy ⟨hpx, hpy⟩
      omega
    · exact ih

end

/-! ## Spans -/

namespace Span

/-- The span begins and ends at one of some positions. -/
structure Ends (s : Span) (positions : List Nat) : Prop where
  first : s.first ∈ positions
  last : s.last ∈ positions

variable {s t : Span} {is js : List Nat}

theorem ends_point (i : Nat) : (point i).Ends [i] := ⟨List.mem_cons_self, List.mem_cons_self⟩

theorem Ends.subset (h : s.Ends is) (hsub : is ⊆ js) : s.Ends js := ⟨hsub h.first, hsub h.last⟩

theorem Ends.hull (hs : s.Ends is) (ht : t.Ends js) : (s.hull t).Ends (is ++ js) := by
  simp only [Span.hull]
  constructor
  · rcases Nat.le_total s.first t.first with h | h
    · exact List.mem_append_left _ (by simpa [h] using hs.first)
    · exact List.mem_append_right _ (by simpa [h] using ht.first)
  · rcases Nat.le_total s.last t.last with h | h
    · exact List.mem_append_right _ (by simpa [h] using ht.last)
    · exact List.mem_append_left _ (by simpa [h] using hs.last)

/-- What covers positions covers the span that begins and ends at two of them. -/
theorem Ends.le (h : s.Ends is) (ht : ∀ i ∈ is, t.contains i = true) :
    t.first ≤ s.first ∧ s.last ≤ t.last :=
  ⟨(contains_iff.mp (ht _ h.first)).1, (contains_iff.mp (ht _ h.last)).2⟩

end Span

theorem Logical.ends_span (x : Logical) : x.span.Ends (x.points.map (·.position)) := by
  have hfold : ∀ (cs : List Consumer) (s : Span) (is : List Nat), s.Ends is →
      (cs.foldl (fun s c => s.extend c.position) s).Ends (is ++ cs.map (·.position)) := by
    intro cs
    induction cs with
    | nil => exact fun s is h => h.subset (List.subset_append_left ..)
    | cons c cs ih =>
      intro s is h
      rw [List.map_cons, List.append_cons]
      exact ih _ _ (h.hull (Span.ends_point _))
  have hpoints : x.points.map (·.position) = [x.position] ++ x.consumers.map (·.position) := by
    simp only [points, List.map_cons, List.map_map, origin]
    rfl
  exact hpoints ▸ hfold _ _ _ (Span.ends_point _)

namespace Bucket

theorem sortPoints_pairwise (points : List UsagePoint) :
    (sortPoints points).Pairwise (·.position ≤ ·.position) := by
  have htrans : ∀ a b c : UsagePoint, decide (a.position ≤ b.position) = true →
      decide (b.position ≤ c.position) = true → decide (a.position ≤ c.position) = true := by
    simp only [decide_eq_true_eq]
    exact fun _ _ _ => Nat.le_trans
  have htotal : ∀ a b : UsagePoint,
      (decide (a.position ≤ b.position) || decide (b.position ≤ a.position)) = true := by
    simp only [Bool.or_eq_true, decide_eq_true_eq]
    exact fun _ _ => Nat.le_total ..
  exact (List.pairwise_mergeSort htrans htotal points).imp of_decide_eq_true

end Bucket

namespace Packing

variable {strategy : Strategy} {xs : List Logical}

/-- The uses of a bucket are listed from the first to the last. -/
theorem points_placeAll : ∀ b ∈ placeAll strategy xs, b.points.Pairwise (·.position ≤ ·.position) :=
  placeAll_induct (P := fun b _ => b.points.Pairwise (·.position ≤ ·.position))
    (fun _ _ => Bucket.sortPoints_pairwise _) fun _ _ _ _ _ => Bucket.sortPoints_pairwise _

/-- A bucket is spanned by its uses. -/
theorem ends_placeAll : ∀ b ∈ placeAll strategy xs, b.span.Ends (b.points.map (·.position)) := by
  refine placeAll_induct (P := fun b _ => b.span.Ends (b.points.map (·.position)))
    (fun id x => ?_) fun b xs x h ha => ?_
  · exact x.ends_span.subset (((Bucket.sortPoints_perm _).map _).symm.subset)
  · refine (h.hull x.ends_span).subset ?_
    rw [← List.map_append]
    exact ((Bucket.sortPoints_perm _).map _).symm.subset

end Packing

end FrameGraph
