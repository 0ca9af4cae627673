import FrameGraph.Proofs.Packing.Conservation
import FrameGraph.Report

/-!
# The chart of a packing

A chart has a row for each bucket and a cell of three characters for each position, with an `x`
where the bucket is used. Up to 1000 positions and 100000 buckets no label outgrows its column, so
that the cells of all rows stand below one another, and none of the uses is left out
(`Report.pack_chart`). The heading, however, leaves room for two characters where a row has its bar:
its cells stand one character to the right of those that they label
(`Report.blurs_chart_misaligned`).
-/

namespace FrameGraph

namespace Report

/-! ## Cells in a line -/

/-- The three characters of a line from an offset on. -/
def cellAt (line : String) (offset : Nat) : String :=
  String.ofList ((line.toList.drop offset).take 3)

theorem length_join {cells : List String} (hcells : ∀ c ∈ cells, c.length = 3) :
    (String.join cells).length = 3 * cells.length := by
  rw [String.length_join, List.map_congr_left hcells, List.map_const', List.sum_replicate_nat,
    Nat.mul_comm]

/-- Where cells stand one after another, each begins after three characters for each one before. -/
theorem cellAt_join {lead tail : String} {cells : List String} {k : Nat} {c : String}
    (hcells : ∀ c ∈ cells, c.length = 3) (hk : cells[k]? = some c) :
    cellAt (lead ++ String.join cells ++ tail) (lead.length + 3 * k) = c := by
  obtain ⟨hlt, rfl⟩ := List.getElem?_eq_some_iff.mp hk
  have hsplit : cells = cells.take k ++ cells[k] :: cells.drop (k + 1) := by
    rw [← List.drop_eq_getElem_cons, List.take_append_drop]
  have hline : (lead ++ String.join cells ++ tail).toList =
      (lead ++ String.join (cells.take k)).toList ++
        (cells[k].toList ++ (String.join (cells.drop (k + 1)) ++ tail).toList) := by
    conv_lhs => rw [hsplit]
    simp only [String.toList_append, String.toList_join, List.flatMap_append, List.flatMap_cons,
      List.append_assoc]
  have hlead : (lead ++ String.join (cells.take k)).toList.length = lead.length + 3 * k := by
    rw [String.length_toList, String.length_append,
      length_join fun c hc => hcells c (List.mem_of_mem_take hc), List.length_take_of_le hlt.le]
  have hcell : cells[k].toList.length = 3 := hcells _ (List.getElem_mem hlt)
  rw [cellAt, hline, List.drop_left' hlead, List.take_left' hcell, String.ofList_toList]

theorem getElem?_positions {timeline : Span} (hfirst : timeline.first = 0) {i : Nat}
    (hi : timeline.contains i = true) : timeline.positions[i]? = some i := by
  have hlast := (Span.contains_iff.mp hi).2
  rw [Span.positions, Span.length, hfirst, List.getElem?_range' (by omega)]
  simp

/-! ## The heading -/

/-- A cell of three characters with a number in the middle. An odd blank stands on the right. -/
structure Labels (c : String) (i : Nat) : Prop where
  length : c.length = 3
  centred : ∃ left right, left ≤ right ∧ right ≤ left + 1 ∧
    c.toList = List.replicate left ' ' ++ Nat.toDigits 10 i ++ List.replicate right ' '

theorem toList_toString (i : Nat) : (toString i).toList = Nat.toDigits 10 i := by
  rw [Nat.toString_eq_repr, Nat.repr_eq_ofList_toDigits, String.toList_ofList]

theorem length_headingCell {i : Nat} (hi : i < 1000) : (headingCell i).length = 3 := by
  rw [headingCell, length_padBoth, ← String.length_toList, toList_toString]
  exact Nat.max_eq_left ((Nat.length_toDigits_le_iff (by decide) (by decide)).mpr hi)

theorem labels_headingCell {i : Nat} (hi : i < 1000) : Labels (headingCell i) i := by
  have hcell : (headingCell i).toList = _ := toList_padBoth 3 (toString i)
  rw [toList_toString] at hcell
  exact ⟨length_headingCell hi, _, _, by omega, by omega, hcell⟩

/-- There is one way to label a position. -/
theorem Labels.eq {c : String} {i : Nat} (h : Labels c i) : c = headingCell i := by
  obtain ⟨left, right, hle, hlt, hc⟩ := h.centred
  have hlength := h.length
  rw [← String.length_toList, hc, List.length_append, List.length_append, List.length_replicate,
    List.length_replicate] at hlength
  have hleft : left = (3 - (Nat.toDigits 10 i).length) / 2 := by omega
  have hright : right = 3 - (Nat.toDigits 10 i).length - left := by omega
  rw [← String.toList_inj, headingCell, toList_padBoth, ← String.length_toList, toList_toString, hc,
    ← hleft, ← hright]

theorem labels_heading {timeline : Span} (hfirst : timeline.first = 0)
    (hlength : timeline.length < 1000) {i : Nat} (hi : timeline.contains i = true) :
    Labels (cellAt (heading timeline) (16 + 3 * i)) i := by
  have hlt : ∀ j ∈ timeline.positions, j < 1000 := by
    intro j hj
    have hlast := (Span.contains_iff.mp (Span.mem_positions.mp hj)).2
    rw [Span.length, hfirst] at hlength
    omega
  have hpositions := getElem?_positions hfirst hi
  have hcell : cellAt (heading timeline) (16 + 3 * i) = headingCell i := by
    have hlead : (padRight labelWidth "" ++ "  ").length = 16 := by decide
    rw [heading, ← hlead, ← String.append_empty (s := _ ++ String.join _)]
    refine cellAt_join (fun c hc => ?_) (by rw [List.getElem?_map, hpositions, Option.map_some])
    obtain ⟨j, hj, rfl⟩ := List.mem_map.mp hc
    exact length_headingCell (hlt j hj)
  rw [hcell]
  exact labels_headingCell (hlt i (List.mem_of_getElem? hpositions))

/-! ## Rows -/

/-- How a row shows a bucket: by its number, and behind the bar by a cell for each position. -/
structure Shows (timeline : Span) (b : Bucket) (row : String) : Prop where
  name : ∃ blanks, row.toList.take 14 =
    "Resource ".toList ++ Nat.toDigits 10 b.id ++ List.replicate blanks ' '
  bar : row.toList[14]? = some '|'
  cells : ∀ i, timeline.contains i = true →
    cellAt row (15 + 3 * i) = if ∃ u ∈ b.points, u.position = i then " x " else " - "
  shown : ∀ u ∈ b.points, timeline.contains u.position = true

theorem cell_eq (b : Bucket) (i : Nat) :
    cell b i = if ∃ u ∈ b.points, u.position = i then " x " else " - " := by
  simp only [cell, Bucket.isUsedAt, List.any_eq_true, beq_iff_eq]

theorem toList_name (id : BucketId) :
    s!"Resource {id}".toList = "Resource ".toList ++ Nat.toDigits 10 id := by
  rw [← toList_toString, ← String.toList_append]
  rfl

/-- Numbers up to five digits fit into the column of labels. -/
theorem length_label {id : BucketId} (hid : id < 100000) :
    (padRight labelWidth s!"Resource {id}").length = 14 := by
  have hdigits : (Nat.toDigits 10 id).length ≤ 5 :=
    (Nat.length_toDigits_le_iff (by decide) (by decide)).mpr hid
  have hwidth : s!"Resource {id}".length ≤ 14 := by
    rw [← String.length_toList, toList_name, List.length_append]
    exact Nat.add_le_add_left hdigits 9
  rw [length_padRight]
  exact Nat.max_eq_left hwidth

theorem shows_row {p : Packing} {timeline : Span} {b : Bucket} (hfirst : timeline.first = 0)
    (hid : b.id < 100000) (hshown : ∀ u ∈ b.points, timeline.contains u.position = true) :
    Shows timeline b (row p timeline b) := by
  have hlabel := length_label hid
  have hlead : (padRight labelWidth s!"Resource {b.id}" ++ "|").length = 15 := by
    rw [String.length_append, hlabel]
    rfl
  have hrow : (row p timeline b).toList = (padRight labelWidth s!"Resource {b.id}").toList ++
      '|' :: (String.join (timeline.positions.map (cell b)) ++
        s!"| {b.payload.name}: {memberNames p b}").toList := by
    simp only [row, String.toList_append, List.append_assoc]
    rfl
  refine ⟨⟨14 - s!"Resource {b.id}".length, ?_⟩, ?_, fun i hi => ?_, hshown⟩
  · rw [hrow, List.take_left' hlabel, padRight, toList_pushn, toList_name]
    rfl
  · rw [hrow, List.getElem?_append_right hlabel.le, String.length_toList, hlabel]
    rfl
  · rw [row, ← hlead, ← cell_eq]
    refine cellAt_join (fun c hc => ?_)
      (by rw [List.getElem?_map, getElem?_positions hfirst hi, Option.map_some])
    obtain ⟨j, -, rfl⟩ := List.mem_map.mp hc
    exact length_cell b j

/-! ## The chart -/

variable {strategy : Strategy} {nodes : List Node} {edges : List Edge} {timeline : Span}

theorem bounds_of_timeline (h : (Packing.pack strategy nodes edges).timeline = some timeline) :
    timeline.first = 0 ∧ timeline.last + 1 = nodes.length := by
  simp only [Packing.pack] at h
  split at h
  · cases h
  · next hne =>
    cases h
    have hpos : 0 < nodes.length := by
      rw [List.length_pos_iff]
      simpa using hne
    simp only [Span.between]
    omega

/-- Whatever uses a bucket stands in the order, and so on the timeline. -/
theorem contains_timeline (h : (Packing.pack strategy nodes edges).timeline = some timeline)
    {b : Bucket} (hb : b ∈ (Packing.pack strategy nodes edges).buckets) {u : UsagePoint}
    (hu : u ∈ b.points) : timeline.contains u.position = true := by
  obtain ⟨hfirst, hlast⟩ := bounds_of_timeline h
  obtain ⟨x, hx, hux⟩ := (Packing.holds_placeAll b hb).mem_points.mp hu
  obtain ⟨n, hn, -⟩ :=
    Logical.getElem?_position ((Packing.residents_sublist ..).subset hx) hux
  have hlt := (List.getElem?_eq_some_iff.mp hn).1
  rw [Span.contains_iff]
  omega

/-- The chart of a packing, up to 1000 positions and 100000 buckets. The row of each bucket shows at
every position whether the bucket is used there, in cells from offset 15 on, and no use is left out.
The heading labels the positions in cells from offset 16 on: one character to the right. -/
theorem pack_chart (elapsed : String)
    (h : (Packing.pack strategy nodes edges).timeline = some timeline)
    (hpositions : timeline.length < 1000)
    (hbuckets : (Packing.pack strategy nodes edges).bucketCount < 100000) :
    ∃ above heading rows,
      Report.timeline (Packing.pack strategy nodes edges) elapsed =
        unlines (above ++ heading :: rows) ∧
      (∀ i, timeline.contains i = true → Labels (cellAt heading (16 + 3 * i)) i) ∧
      List.Forall₂ (Shows timeline) (Packing.pack strategy nodes edges).buckets rows := by
  obtain ⟨hfirst, -⟩ := bounds_of_timeline h
  refine ⟨summary (Packing.pack strategy nodes edges) elapsed ++
      [s!"  Timeline: {timeline.text}", "", "Legend: (- = not used, x = used)"],
    heading timeline, _, ?_, fun i => labels_heading hfirst hpositions,
    List.forall₂_map_right_iff.mpr (List.forall₂_same.mpr fun b hb =>
      shows_row (p := .pack strategy nodes edges) hfirst ?_ fun u => contains_timeline h hb)⟩
  · simp only [Report.timeline, timelineRows, h, List.append_assoc]
    rfl
  · exact Nat.lt_trans (Packing.id_lt hb) hbuckets

/-- A chain of three passes. -/
def blurs : List Node × List Edge :=
  let node (id : NodeId) (name : String) : Node :=
    { id, name, kind := .gaussianBlur,
      ports := [⟨10 * id, .imageInput "Image" .rgba16Float, true⟩,
        ⟨10 * id + 1, .imageOutput "Blurred Image" .rgba16Float, false⟩] }
  let link (id : EdgeId) (a b : NodeId) : Edge :=
    ⟨id, ⟨a, 10 * a + 1, "Blurred Image"⟩, ⟨b, 10 * b, "Image"⟩, .image⟩
  ([node 0 "Blur 0", node 1 "Blur 1", node 2 "Blur 2"], [link 80 0 1, link 81 1 2])

theorem blurs_chart :
    let packing := Packing.pack .optimized blurs.1 blurs.2
    packing.timeline = some (.between 0 2) ∧ (Span.between 0 2).length < 1000 ∧
      packing.bucketCount < 100000 ∧
      ∃ above heading rows, Report.timeline packing "0ns" = unlines (above ++ heading :: rows) ∧
        (∀ i, (Span.between 0 2).contains i = true → Labels (cellAt heading (16 + 3 * i)) i) ∧
        List.Forall₂ (Shows (.between 0 2)) packing.buckets rows := by
  have hcount : (Packing.pack .optimized blurs.1 blurs.2).bucketCount < 100000 := by decide +kernel
  exact ⟨rfl, by decide, hcount, pack_chart "0ns" rfl (by decide) hcount⟩

/-- The first bucket of the chain is used at every position, and there is no offset at which the
heading has the labels of the positions and the row of this bucket their cells. -/
theorem blurs_chart_misaligned :
    let heading := "                 0  1  2 "
    let row := "Resource 0    | x  x  x | Image: Blur 0.Blurred Image, Blur 2.Blurred Image"
    (∃ above below, Report.timeline (Packing.pack .optimized blurs.1 blurs.2) "0ns" =
      unlines (above ++ heading :: row :: below)) ∧
    ¬ ∃ offset, ∀ i < 3, Labels (cellAt heading (offset + 3 * i)) i ∧
      cellAt row (offset + 3 * i) = " x " := by
  intro heading row
  let packing := Packing.pack .optimized blurs.1 blurs.2
  let image (i : Fin 3) : Logical := (Logical.all blurs.1 blurs.2).get i
  -- The images of the outer passes share the first bucket.
  let first := (Bucket.single 0 (image 0)).merge (image 2)
  have hused : cell first = fun i =>
      if ((image 0).points ++ (image 2).points).any (·.position == i) then " x " else " - " := by
    funext i
    rw [cell, Bucket.isUsedAt_merge, Bucket.isUsedAt_single, List.any_append]
  have hrow : Report.row packing (.between 0 2) first = row := by
    rw [Report.row, hused]
    decide +kernel
  have hheading : Report.heading (.between 0 2) = heading := by decide +kernel
  have hrows : timelineRows packing "0ns" =
      (summary packing "0ns" ++
        ["  Timeline: [0, 2]", "", "Legend: (- = not used, x = used)"]) ++
        heading :: row :: [Report.row packing (.between 0 2) (.single 1 (image 1))] := by
    rw [← hrow, ← hheading]
    rfl
  refine ⟨⟨_, _, congrArg unlines hrows⟩, ?_⟩
  rintro ⟨offset, haligned⟩
  obtain ⟨hlabel, hcell⟩ := haligned 0 (by decide)
  have hapart : ∀ offset < 30, cellAt heading offset = headingCell 0 →
      cellAt row offset ≠ " x " := by decide +kernel
  by_cases hoffset : offset < 30
  · exact hapart offset hoffset hlabel.eq hcell
  · -- The heading does not reach that far.
    have hcharacters := hlabel.length
    have hshort : heading.toList.length ≤ 30 := by decide
    rw [cellAt, List.drop_eq_nil_of_le (by omega)] at hcharacters
    cases hcharacters

end Report

end FrameGraph
