import Drafting.Proofs.Layout.Rows

namespace Drafting

open Scalar

variable {K : Type} [Field K] [LinearOrder K] [FloorSemiring K]

namespace Layout.FlowChart

theorem layers_eq {α : Type} (d : Diagram α) : ∃ kept ends, layers d = kept ++ ends ∧
    (∀ l ∈ kept, ∀ i ∈ l, isEnd d i = false) ∧ (∀ l ∈ ends, ∀ i ∈ l, isEnd d i = true) ∧
      ends.length ≤ 1 := by
  let kept := ((Layers.layers d).map fun l => l.filter fun i => !isEnd d i).filter fun l =>
    !l.isEmpty
  let ends := (Layers.layers d).flatMap fun l => l.filter (isEnd d)
  have hkept : ∀ l ∈ kept, ∀ i ∈ l, isEnd d i = false := by
    intro l hl i hi
    obtain ⟨layer, _, rfl⟩ := List.mem_map.1 (List.mem_of_mem_filter hl)
    simpa using (List.mem_filter.1 hi).2
  have hends : ∀ i ∈ ends, isEnd d i = true := by
    intro i hi
    obtain ⟨layer, _, hi⟩ := List.mem_flatMap.1 hi
    exact (List.mem_filter.1 hi).2
  by_cases he : ends.isEmpty
  · refine ⟨kept, [], ?_, hkept, by simp, by simp⟩
    rw [List.append_nil]
    exact if_pos he
  · exact ⟨kept, [ends], if_neg he, hkept, by simpa using hends, le_rfl⟩

/-- The last row is that of the ends, if there are any, and none of them stands above it. -/
theorem rowsOf_layout_eq (s : LayoutSettings K) (d : Diagram K) : ∃ above last,
    rowsOf (d.layout s).nodes (layers d) = above ++ last ∧
      (∀ row ∈ above, ∀ n ∈ row, n.kind ≠ .finish) ∧
      (∀ row ∈ last, ∀ n ∈ row, n.kind = .finish) ∧ last.length ≤ 1 := by
  have hkind (l : List Nat) : ∀ n ∈ (pick (d.layout s).nodes l).map Prod.snd,
      ∃ i ∈ l, isEnd d i = decide (n.kind = .finish) := by
    rw [List.forall_mem_map]
    intro p hp
    obtain ⟨hi, hn⟩ := mem_pick.1 hp
    refine ⟨p.1, hi, ?_⟩
    rw [← (Diagram.sameSkeleton_layout s d).isEnd, isEnd, hn]
  obtain ⟨kept, ends, hl, hkept, hends, hone⟩ := layers_eq d
  refine ⟨rowsOf (d.layout s).nodes kept, rowsOf (d.layout s).nodes ends, ?_, ?_, ?_, ?_⟩
  · rw [hl, rowsOf, List.map_append]
    rfl
  · rw [rowsOf, List.forall_mem_map]
    intro l hm n hn
    obtain ⟨i, hi, he⟩ := hkind l n hn
    rw [hkept l hm i hi] at he
    exact of_decide_eq_false he.symm
  · rw [rowsOf, List.forall_mem_map]
    intro l hm n hn
    obtain ⟨i, hi, he⟩ := hkind l n hn
    rw [hends l hm i hi] at he
    exact of_decide_eq_true he.symm
  · rwa [rowsOf, List.length_map]

theorem least?_eq_min? (as : List K) : least? as = as.min? := by
  have hleast : Scalar.least = (min : K → K → K) := by
    funext a b
    exact least_eq_min a b
  cases as with
  | nil => rfl
  | cons a as => rw [least?, hleast, List.min?_cons']

theorem least?_of_extent {row : Placement K} {r : Rect K}
    (h : Node.extent (row.map Prod.snd) = some r) :
    least? (row.map fun p => p.2.box.x) = some r.x := by
  obtain ⟨⟨b, hb, hx⟩, hle⟩ := (Rect.isHull_of_enclosing? h).left
  have hboxes : (row.map fun p => p.2.box.x) = ((row.map Prod.snd).map Node.box).map Rect.x := by
    rw [List.map_map, List.map_map]
    rfl
  rw [least?_eq_min?, List.min?_eq_some_iff, hboxes]
  exact ⟨hx ▸ List.mem_map_of_mem hb, List.forall_mem_map.2 fun b hb => hle ⟨b, hb, rfl⟩⟩

/-- A row moves as a whole until it does not begin left of the bound. -/
theorem shiftRow_of_extent {row : Placement K} {r : Rect K}
    (h : Node.extent (row.map Prod.snd) = some r) (minX : K) :
    shiftRow minX row = onNodes (Node.shift (max r.x minX - r.x) 0) row := by
  rw [shiftRow, least?_of_extent h]
  dsimp only
  split
  next hlt =>
    rw [max_eq_right hlt.le]
    simp only [Node.shift_zero_right]
    rfl
  next hle =>
    rw [max_eq_left (not_lt.1 hle), sub_self]
    simp [onNodes, Node.shift]

variable [IsStrictOrderedRing K]

theorem spacious_rule {s : FlowSettings K} (hn : 0 ≤ s.nodeSeparation)
    (hr : 0 ≤ s.rankSeparation) : (rule s).Spacious where
  advance _ := le_add_of_nonneg_right hn
  descent _ := le_add_of_nonneg_right hr

theorem exists_shiftRow_eq (minX : K) (row : Placement K) :
    ∃ dx, shiftRow minX row = onNodes (Node.shift dx 0) row ∧
      ∀ p ∈ row, minX ≤ p.2.box.x + dx := by
  cases h : Node.extent (row.map Prod.snd) with
  | none =>
      obtain rfl : row = [] := List.map_eq_nil_iff.1 (Page.extent_eq_none.1 h)
      exact ⟨0, rfl, by simp⟩
  | some r =>
      refine ⟨_, shiftRow_of_extent h minX, fun p hp => ?_⟩
      have hbox : p.2.box ∈ (row.map Prod.snd).map Node.box :=
        List.mem_map_of_mem (List.mem_map_of_mem hp)
      have hle : r.x ≤ p.2.box.x := ((Rect.isHull_of_enclosing? h).mem hbox).1.1
      linarith [le_max_right r.x minX]

/-- In the end each row stands as the layers were stacked, moved sideways as far as the bound
asks for. -/
theorem exists_rowsOf_place (s : LayoutSettings K) (d : Diagram K) :
    let nodes := normalize s.padding
      (settle d.nodes (placeRows (rule s.flow) ((layers d).map (pick d.nodes))))
    ∃ dx : List Nat → K,
      (rowsOf (place s d) (layers d) = (layers d).map fun l =>
        ((pick nodes l).map Prod.snd).map (Node.shift (dx l) 0)) ∧
      ∀ l, ∀ p ∈ pick nodes l, s.flow.minX ≤ p.2.box.x + dx l := by
  intro nodes
  have hlayers : Partitions (layers d) nodes.length := by
    rw [length_normalize, length_settle]
    exact layers_partitions d
  choose dx hdx hmin using fun l => exists_shiftRow_eq s.flow.minX (pick nodes l)
  refine ⟨dx, ?_, hmin⟩
  have hc := covers_shiftRow s.flow.minX hlayers
  rw [List.flatMap_def] at hc
  change rowsOf (settle nodes ((layers d).map fun l => shiftRow s.flow.minX (pick nodes l)).flatten)
    (layers d) = _
  rw [hc.rowsOf_settle, List.map_map]
  · refine List.map_congr_left fun l _ => ?_
    rw [Function.comp_apply, hdx, map_snd_onNodes]
  · conv => rhs; rw [← map_map_fst_pick hlayers]
    rw [List.map_map]
    refine List.map_congr_left fun l _ => ?_
    rw [Function.comp_apply, hdx, map_fst_onNodes]

end Layout.FlowChart

open Layout

/-- In a flow chart no two boxes overlap and none begins left of the bound. All ends have their tops
at one height, and nothing else reaches below it. -/
theorem Diagram.flow_layout_finish_last [IsStrictOrderedRing K] (s : LayoutSettings K)
    (d : Diagram K) (hk : d.kind = .flow) (hd : d.Sized) (hn : 0 ≤ s.flow.nodeSeparation)
    (hr : 0 ≤ s.flow.rankSeparation) :
    let nodes := (d.layout s).nodes
    (d.layout s).unplaced = d.unplaced ∧ (nodes.Pairwise fun m n => m.box.Apart n.box) ∧
      (∀ n ∈ nodes, s.flow.minX ≤ n.box.x) ∧
      ∀ m ∈ nodes, m.kind = .finish → ∀ n ∈ nodes,
        if n.kind = .finish then n.box.y = m.box.y else n.box.bottom ≤ m.box.y := by
  intro nodes
  have hplace : nodes = FlowChart.place s d := by
    rw [show nodes = place s d from hd.nodes_layout s, place, hk]
  have hlayers := FlowChart.layers_partitions d
  have hperm : (rowsOf nodes (FlowChart.layers d)).flatten.Perm nodes :=
    flatten_rowsOf_perm (by rwa [length_layout])
  obtain ⟨dx, hrows, hmin⟩ := FlowChart.exists_rowsOf_place s d
  have hstack : Stacked (rowsOf nodes (FlowChart.layers d)) := by
    have h := stacked_normalize (FlowChart.spacious_rule hn hr) s.padding hd hlayers
    rw [hplace, hrows]
    exact h.shift dx 0
  have hrow {n : Node K} (h : n ∈ nodes) : ∃ row ∈ rowsOf nodes (FlowChart.layers d), n ∈ row :=
    List.mem_flatten.1 (hperm.mem_iff.2 h)
  refine ⟨hd.unplaced_layout s, pairwise_apart_of_perm hperm hstack.pairwise_apart, ?_, ?_⟩
  · intro n h
    obtain ⟨row, hm, hmem⟩ := hrow h
    rw [hplace, hrows] at hm
    obtain ⟨l, _, rfl⟩ := List.mem_map.1 hm
    rw [List.map_map] at hmem
    obtain ⟨p, hp, rfl⟩ := List.mem_map.1 hmem
    exact (hmin l p hp).trans_eq (congrArg Rect.x (p.2.box_shift (dx l) 0)).symm
  · intro m hm hf n hn
    obtain ⟨above, last, heq, habove, hlast, hone⟩ := FlowChart.rowsOf_layout_eq s d
    obtain ⟨row, hr, hmr⟩ := hrow hm
    obtain ⟨row', hr', hnr⟩ := hrow hn
    rw [show rowsOf nodes (FlowChart.layers d) = _ from heq] at hr hr' hstack
    have hends : row ∈ last := (List.mem_append.1 hr).resolve_left fun h => habove row h m hmr hf
    obtain ⟨hlevel, hbelow⟩ := hstack.level_or_above hone hends hmr
    split
    next he =>
      have hend : row' ∈ last :=
        (List.mem_append.1 hr').resolve_left fun h => habove row' h n hnr he
      exact hlevel row' hend n hnr
    next he =>
      have hother : row' ∈ above :=
        (List.mem_append.1 hr').resolve_right fun h => he (hlast row' h n hnr)
      exact hbelow row' hother n hnr

def Diagram.shortcut : Diagram ℚ where
  kind := .flow
  nodes :=
    [⟨"node-1", .start, 0, 0, 80, 80, "start", none⟩,
      ⟨"node-2", .finish, 0, 0, 80, 80, "give up", none⟩,
      ⟨"node-3", .process, 0, 0, 5000, 1 / 3, "work", none⟩,
      ⟨"node-4", .finish, 0, 0, 80, 200, "done", none⟩]
  edges :=
    [⟨"edge-1", "node-1", "node-2", none, some .flow, none⟩,
      ⟨"edge-2", "node-1", "node-3", none, some .flow, none⟩,
      ⟨"edge-3", "node-3", "node-4", none, some .flow, none⟩,
      ⟨"edge-4", "node-4", "node-1", none, some .flow, none⟩]
  title := none
  skipped := []
  unresolved := []

theorem Diagram.shortcut_layout_finish_last :
    let nodes := (Diagram.shortcut.layout .dense).nodes
    Diagram.shortcut.kind = .flow ∧ Diagram.shortcut.Sized ∧
      0 ≤ LayoutSettings.dense.flow.nodeSeparation ∧
      0 ≤ LayoutSettings.dense.flow.rankSeparation ∧
      FlowChart.layers Diagram.shortcut = [[0], [2], [1, 3]] ∧
      (Diagram.shortcut.layout .dense).unplaced = Diagram.shortcut.unplaced ∧
      (nodes.Pairwise fun m n => m.box.Apart n.box) ∧ (∀ n ∈ nodes, 700 ≤ n.box.x) ∧
      ∀ m ∈ nodes, m.kind = .finish → ∀ n ∈ nodes,
        if n.kind = .finish then n.box.y = m.box.y else n.box.bottom ≤ m.box.y := by
  have hk : Diagram.shortcut.kind = .flow := by decide
  have hd : Diagram.shortcut.Sized := by decide +kernel
  have hn : (0 : ℚ) ≤ 0 := le_rfl
  have hr : (0 : ℚ) ≤ 1 / 2 := by decide +kernel
  exact ⟨hk, hd, hn, hr, by decide +kernel,
    Diagram.flow_layout_finish_last .dense Diagram.shortcut hk hd hn hr⟩

end Drafting
