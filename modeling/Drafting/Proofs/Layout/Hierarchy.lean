import Drafting.Proofs.Layout.Rows

namespace Drafting

open Scalar

variable {K : Type} [Field K] [LinearOrder K] [FloorSemiring K]

namespace Layout

namespace Hierarchy

variable {s : HierarchySettings K} {left top widest : K}

theorem right_of_getLast?_placeRow {row : Placement K} {p : Nat × Node K}
    (h : (placeRow (rule s) left top row).getLast? = some p) :
    p.2.box.right = left + extent s (row.map Prod.snd) := by
  have hsteps : (row.map Prod.snd).map (advance s) = row.map fun p => advance s p.2 := List.map_map
  rw [placeRow, ← List.map_uncurry_zip_eq_zipWith, offsets_eq_map, List.zip_map_right, List.map_map,
    List.getLast?_map] at h
  obtain ⟨⟨q, x⟩, hl, rfl⟩ := Option.map_eq_some_iff.1 h
  change (row.zip (offsets 0 (row.map fun p => advance s p.2))).getLast? = some (q, x) at hl
  have hextent : extent s (row.map Prod.snd) = x + q.2.width := by
    rw [extent, hsteps, List.zip_map_left, List.getLast?_map, zero_eq, hl]
    rfl
  rw [hextent, ← add_assoc]
  exact congrArg Rect.right (q.2.box_placeCorner (left + x) top)

theorem left_add_right_placedRows {rows : List (Placement K)} (hrows : ∀ row ∈ rows, row ≠ []) :
    ∀ placed ∈ placedRows (rule s) widest top rows, ∃ p q, placed.head? = some p ∧
      placed.getLast? = some q ∧ p.2.box.x + q.2.box.right = widest := by
  induction rows generalizing top with
  | nil => simp [placedRows]
  | cons row rows ih =>
      obtain ⟨hrow, hrows⟩ := List.forall_mem_cons.1 hrows
      rw [placedRows, List.forall_mem_cons]
      refine ⟨?_, ih hrows⟩
      obtain ⟨p, behind, rfl⟩ := List.exists_cons_of_ne_nil hrow
      let taken := extent s ((p :: behind).map Prod.snd)
      have hne : placeRow (rule s) ((widest - taken) / 2) top (p :: behind) ≠ [] := by
        simp [placeRow_cons]
      have hq := List.getLast?_eq_some_getLast hne
      rw [two_eq]
      refine ⟨_, _, rfl, hq, ?_⟩
      rw [right_of_getLast?_placeRow hq]
      change (p.2.placeCorner ((widest - taken) / 2) top).box.x + _ = _
      rw [Node.box_placeCorner]
      change (widest - taken) / 2 + ((widest - taken) / 2 + taken) = widest
      ring

end Hierarchy

variable [IsStrictOrderedRing K]

namespace SideBySide

variable {top : K} {row : List (Node K)} {m n : Node K}

theorem isLeast_left (h : SideBySide top row) (hs : ∀ n ∈ row, 0 ≤ n.width)
    (hn : row.head? = some n) : IsLeast (Rect.x '' {r | r ∈ row.map Node.box}) n.box.x := by
  obtain ⟨behind, rfl⟩ := List.head?_eq_some_iff.1 hn
  refine ⟨⟨n.box, by simp, rfl⟩, ?_⟩
  rintro _ ⟨r, hr, rfl⟩
  obtain ⟨m, hm, rfl⟩ := List.mem_map.1 hr
  rcases List.mem_cons.1 hm with rfl | hm
  · exact le_rfl
  · have hw : 0 ≤ n.box.width := by
      rw [n.width_box]
      exact hs n List.mem_cons_self
    have hle := (List.pairwise_cons.1 h.apart).1 m hm
    exact (le_add_of_nonneg_right hw).trans hle

theorem isGreatest_right (h : SideBySide top row) (hs : ∀ n ∈ row, 0 ≤ n.width)
    (hn : row.getLast? = some n) :
    IsGreatest (Rect.right '' {r | r ∈ row.map Node.box}) n.box.right := by
  obtain ⟨before, rfl⟩ := List.getLast?_eq_some_iff.1 hn
  refine ⟨⟨n.box, by simp, rfl⟩, ?_⟩
  rintro _ ⟨r, hr, rfl⟩
  obtain ⟨m, hm, rfl⟩ := List.mem_map.1 hr
  rcases List.mem_append.1 hm with hm | hm
  · have hw : 0 ≤ n.box.width := by
      rw [n.width_box]
      exact hs n (by simp)
    have hle := (List.pairwise_append.1 h.apart).2.2 m hm n (List.mem_singleton_self n)
    exact hle.trans (le_add_of_nonneg_right hw)
  · rw [List.mem_singleton.1 hm]

theorem exists_hull (h : SideBySide top row) (hs : ∀ n ∈ row, 0 ≤ n.width)
    (hm : row.head? = some m) (hn : row.getLast? = some n) :
    ∃ r : Rect K, r.IsHull (row.map Node.box) ∧ r.center.x = (m.box.x + n.box.right) / 2 := by
  cases he : Node.extent row with
  | none => simp [Page.extent_eq_none.1 he] at hm
  | some r =>
      have hr := Rect.isHull_of_enclosing? he
      have hleft := hr.left.unique (h.isLeast_left hs hm)
      have hright := hr.right.unique (h.isGreatest_right hs hn)
      refine ⟨r, hr, ?_⟩
      rw [← hleft, ← hright, Rect.center, Rect.right]
      dsimp only
      rw [two_eq]
      ring

end SideBySide

theorem Hierarchy.spacious_rule {s : HierarchySettings K} (hn : 0 ≤ s.nodeMargin)
    (hl : 0 ≤ s.layerMargin) : (rule s).Spacious where
  advance n := by
    change n.width ≤ greatest s.horizontalSpacing (n.width + s.nodeMargin)
    rw [greatest_eq_max]
    exact (le_add_of_nonneg_right hn).trans (le_max_right _ _)
  descent row := by
    change _ ≤ greatest s.verticalSpacing (peak (row.map Node.height) + s.layerMargin)
    rw [greatest_eq_max]
    exact (le_add_of_nonneg_right hl).trans (le_max_right _ _)

theorem Hierarchy.exists_axis (s : LayoutSettings K) (d : Diagram K)
    (hs : Stacked (rowsOf (place s d) (Layers.layers d)))
    (hw : ∀ row ∈ rowsOf (place s d) (Layers.layers d), ∀ n ∈ row, 0 ≤ n.width) :
    ∃ axis, ∀ row ∈ rowsOf (place s d) (Layers.layers d),
      ∃ r : Rect K, r.IsHull (row.map Node.box) ∧ r.center.x = axis := by
  have hlayers := Layers.layers_partitions d
  have hne : ∀ row ∈ (Layers.layers d).map (pick d.nodes), row ≠ [] := by
    rw [List.forall_mem_map]
    intro layer hm he
    have hkeys := map_fst_pick fun i hi => hlayers.lt hm hi
    rw [he] at hkeys
    exact Layers.ne_nil_of_mem_layers hm hkeys.symm
  obtain ⟨widest, dx, dy, hrows⟩ := exists_rowsOf_normalize (rule s.hierarchy) s.padding hlayers
  replace hrows : rowsOf (place s d) (Layers.layers d) = _ := hrows
  refine ⟨widest / 2 + dx, fun row hr => ?_⟩
  obtain ⟨top, hbeside⟩ := hs.row row hr
  have hwidths := hw row hr
  rw [hrows] at hr
  obtain ⟨placed, hm, rfl⟩ := List.mem_map.1 hr
  obtain ⟨p, q, hp, hq, hsum⟩ := left_add_right_placedRows hne placed hm
  have hfirst : ((placed.map Prod.snd).map (Node.shift dx dy)).head? = some (p.2.shift dx dy) := by
    simp [hp]
  have hlast : ((placed.map Prod.snd).map (Node.shift dx dy)).getLast? =
      some (q.2.shift dx dy) := by
    simp [hq]
  obtain ⟨r, hull, hcenter⟩ := hbeside.exists_hull hwidths hfirst hlast
  refine ⟨r, hull, ?_⟩
  rw [hcenter, Node.box_shift, Node.box_shift, Rect.x_shift, Rect.right_shift, ← hsum]
  ring

end Layout

open Layout

/-- In a hierarchy no two boxes overlap. The nodes of a layer have their tops at one height, further
down than those of the layer before, and the layers all have the same middle. -/
theorem Diagram.hierarchy_layout_rows [IsStrictOrderedRing K] (s : LayoutSettings K)
    (d : Diagram K) (hk : d.kind = .classes ∨ d.kind = .generic) (hd : d.Sized)
    (hn : 0 ≤ s.hierarchy.nodeMargin) (hl : 0 ≤ s.hierarchy.layerMargin) :
    let nodes := (d.layout s).nodes
    let rows := rowsOf nodes (Layers.layers d)
    (d.layout s).unplaced = d.unplaced ∧ rows.flatten.Perm nodes ∧
      (nodes.Pairwise fun m n => m.box.Apart n.box) ∧
      (∀ row ∈ rows, ∀ m ∈ row, ∀ n ∈ row, m.box.y = n.box.y) ∧
      (rows.Pairwise fun upper lower => ∀ m ∈ upper, ∀ n ∈ lower, m.box.y < n.box.y) ∧
      ∃ axis, ∀ row ∈ rows, ∃ r : Rect K, r.IsHull (row.map Node.box) ∧ r.center.x = axis := by
  intro nodes rows
  have hlayers := Layers.layers_partitions d
  have hperm : rows.flatten.Perm nodes := flatten_rowsOf_perm (by rwa [length_layout])
  have hplace : nodes = Hierarchy.place s d := by
    rw [show nodes = place s d from hd.nodes_layout s, place]
    rcases hk with hk | hk <;> rw [hk]
  have hstack : Stacked rows := by
    have h := stacked_normalize (Hierarchy.spacious_rule hn hl) s.padding hd hlayers
    rwa [show rows = _ from congrArg (rowsOf · _) hplace]
  have hpositive : ∀ row ∈ rows, ∀ n ∈ row, 0 < n.width ∧ 0 < n.height := fun row hr n hn =>
    hd.layout s n (hperm.mem_iff.1 (List.mem_flatten.2 ⟨row, hr, hn⟩))
  refine ⟨hd.unplaced_layout s, hperm, pairwise_apart_of_perm hperm hstack.pairwise_apart,
    ?_, ?_, ?_⟩
  · intro row hr m hm n hn
    obtain ⟨top, hbeside⟩ := hstack.row row hr
    rw [hbeside.top m hm, hbeside.top n hn]
  · refine hstack.apart.imp_of_mem fun hu _ hb m hm n hn => ?_
    refine lt_of_lt_of_le (lt_add_of_pos_right m.box.y ?_) (hb m hm n hn)
    rw [m.height_box]
    exact (hpositive _ hu m hm).2
  · have haxis := Hierarchy.exists_axis s d
    rw [← hplace] at haxis
    exact haxis hstack fun row hr n hn => (hpositive row hr n hn).1.le

def Diagram.fork : Diagram ℚ where
  kind := .generic
  nodes :=
    [⟨"node-1", .generic, 0, 0, 120, 60, "handle", none⟩,
      ⟨"node-2", .leaf, 0, 0, 1 / 2, 300, "long prong", none⟩,
      ⟨"node-3", .generic, 0, 0, 900, 1, "wide prong", none⟩,
      ⟨"node-4", .start, 0, 0, 80, 80, "apart", none⟩]
  edges :=
    [⟨"edge-1", "node-1", "node-2", none, none, none⟩,
      ⟨"edge-2", "node-1", "node-3", none, none, none⟩,
      ⟨"edge-3", "node-3", "node-1", none, none, none⟩]
  title := none
  skipped := []
  unresolved := []

theorem Diagram.fork_layout_rows :
    let nodes := (Diagram.fork.layout .dense).nodes
    let rows := rowsOf nodes [[3, 0], [1, 2]]
    (Diagram.fork.kind = .classes ∨ Diagram.fork.kind = .generic) ∧ Diagram.fork.Sized ∧
      0 ≤ LayoutSettings.dense.hierarchy.nodeMargin ∧
      0 ≤ LayoutSettings.dense.hierarchy.layerMargin ∧
      (Diagram.fork.layout .dense).unplaced = Diagram.fork.unplaced ∧
      rows.flatten.Perm nodes ∧ (nodes.Pairwise fun m n => m.box.Apart n.box) ∧
      (∀ row ∈ rows, ∀ m ∈ row, ∀ n ∈ row, m.box.y = n.box.y) ∧
      (rows.Pairwise fun upper lower => ∀ m ∈ upper, ∀ n ∈ lower, m.box.y < n.box.y) ∧
      ∃ axis, ∀ row ∈ rows, ∃ r : Rect ℚ, r.IsHull (row.map Node.box) ∧ r.center.x = axis := by
  have hk : Diagram.fork.kind = .classes ∨ Diagram.fork.kind = .generic := by decide
  have hd : Diagram.fork.Sized := by decide +kernel
  have hn : (0 : ℚ) ≤ 0 := le_rfl
  have hl : (0 : ℚ) ≤ 1 / 2 := by decide +kernel
  have hlayers : Layers.layers Diagram.fork = [[3, 0], [1, 2]] := by decide +kernel
  have hrows := Diagram.hierarchy_layout_rows .dense Diagram.fork hk hd hn hl
  rw [hlayers] at hrows
  exact ⟨hk, hd, hn, hl, hrows⟩

end Drafting
