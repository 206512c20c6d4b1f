import Drafting.Proofs.Layout.Placement

namespace Drafting.Layout

variable {α : Type}

theorem lookup_of_mem {placed : Placement α} (hk : (placed.map Prod.fst).Nodup) {p : Nat × Node α}
    (hp : p ∈ placed) : placed.lookup p.1 = some p.2 := by
  induction placed with
  | nil => cases hp
  | cons q placed ih =>
      obtain ⟨hq, hk⟩ := List.nodup_cons.1 hk
      rw [List.lookup_cons]
      rcases List.mem_cons.1 hp with rfl | hp
      · simp
      · have hne : p.1 ≠ q.1 := fun h => hq (h ▸ List.mem_map_of_mem hp)
        rw [beq_false_of_ne hne]
        exact ih hk hp

theorem getElem?_settle (nodes : List (Node α)) (placed : Placement α) (i : Nat) :
    (settle nodes placed)[i]? = nodes[i]?.map fun n => (placed.lookup i).getD n := by
  rw [settle, List.getElem?_map, List.getElem?_zipIdx, Option.map_map, Nat.zero_add]
  rfl

theorem length_settle (nodes : List (Node α)) (placed : Placement α) :
    (settle nodes placed).length = nodes.length := by
  simp [settle]

theorem map_fst_pick {nodes : List (Node α)} {positions : List Nat}
    (h : ∀ i ∈ positions, i < nodes.length) : (pick nodes positions).map Prod.fst = positions := by
  rw [pick, List.map_filterMap]
  conv => rhs; rw [← List.filterMap_some (l := positions)]
  refine List.filterMap_congr fun i hi => ?_
  simp [List.getElem?_eq_getElem (h i hi)]

theorem map_map_fst_pick {nodes : List (Node α)} {layers : List (List Nat)}
    (h : Partitions layers nodes.length) :
    (layers.map fun l => (pick nodes l).map Prod.fst) = layers := by
  conv => rhs; rw [← List.map_id layers]
  exact List.map_congr_left fun l hl => map_fst_pick fun i hi => h.lt hl hi

theorem map_fst_onNodes (g : Node α → Node α) (placed : Placement α) :
    (onNodes g placed).map Prod.fst = placed.map Prod.fst := List.map_map

theorem map_snd_pick_range (nodes : List (Node α)) :
    (pick nodes (List.range nodes.length)).map Prod.snd = nodes := by
  rw [pick_range, List.map_map]
  exact List.zipIdx_map_fst 0 nodes

def rowsOf (nodes : List (Node α)) (layers : List (List Nat)) : List (List (Node α)) :=
  layers.map fun layer => (pick nodes layer).map Prod.snd

theorem rowsOf_map (g : Node α → Node α) (nodes : List (Node α)) (layers : List (List Nat)) :
    rowsOf (nodes.map g) layers = (rowsOf nodes layers).map (List.map g) := by
  rw [rowsOf, rowsOf, List.map_map]
  exact List.map_congr_left fun layer _ => by rw [pick_map, map_snd_onNodes, Function.comp_apply]

theorem flatten_rowsOf_perm {nodes : List (Node α)} {layers : List (List Nat)}
    (h : Partitions layers nodes.length) : (rowsOf nodes layers).flatten.Perm nodes := by
  have hrows : (rowsOf nodes layers).flatten = (pick nodes layers.flatten).map Prod.snd := by
    rw [← flatten_map_pick, List.map_flatten, List.map_map]
    rfl
  rw [hrows]
  exact ((pick_perm nodes h).map Prod.snd).trans (.of_eq (map_snd_pick_range nodes))

section

variable [Scalar α] {nodes : List (Node α)} {row placed : Placement α}

theorem length_normalize (padding : α) (nodes : List (Node α)) :
    (normalize padding nodes).length = nodes.length := by
  simpa using congrArg List.length (map_unplaced_normalize padding nodes)

theorem map_fst_blank (placed : Placement α) :
    (blank placed).map Prod.fst = placed.map Prod.fst := map_fst_onNodes _ placed

theorem Moved.map_fst_perm (h : Moved row placed) :
    (placed.map Prod.fst).Perm (row.map Prod.fst) := by
  have hkeys := List.Perm.map Prod.fst h
  rwa [map_fst_blank, map_fst_blank] at hkeys

namespace Covers

theorem map_fst_perm (h : Covers nodes placed) :
    (placed.map Prod.fst).Perm (List.range nodes.length) := by
  have hkeys := Moved.map_fst_perm h
  rwa [map_fst_pick fun _ => List.mem_range.1] at hkeys

theorem getElem?_settle (h : Covers nodes placed) {p : Nat × Node α} (hp : p ∈ placed) :
    (settle nodes placed)[p.1]? = some p.2 := by
  have hn : p.1 < nodes.length :=
    List.mem_range.1 (h.map_fst_perm.mem_iff.1 (List.mem_map_of_mem hp))
  have hk : (placed.map Prod.fst).Nodup := h.map_fst_perm.nodup_iff.2 List.nodup_range
  rw [Layout.getElem?_settle, lookup_of_mem hk hp, List.getElem?_eq_getElem hn]
  rfl

theorem mem_of_getElem?_settle (h : Covers nodes placed) {i : Nat} {n : Node α}
    (hn : (settle nodes placed)[i]? = some n) : (i, n) ∈ placed := by
  have hi : i < nodes.length := by
    rw [← length_settle nodes placed]
    exact (List.getElem?_eq_some_iff.1 hn).1
  obtain ⟨p, hp, rfl⟩ := List.mem_map.1 (h.map_fst_perm.mem_iff.2 (List.mem_range.2 hi))
  rw [h.getElem?_settle hp, Option.some_inj] at hn
  rwa [← hn]

theorem pick_settle (h : Covers nodes placed) (hr : row ⊆ placed) :
    pick (settle nodes placed) (row.map Prod.fst) = row := by
  rw [pick, List.filterMap_map]
  conv => rhs; rw [← List.filterMap_some (l := row)]
  refine List.filterMap_congr fun p hp => ?_
  rw [Function.comp_apply, h.getElem?_settle (hr hp)]
  rfl

theorem settle_perm (h : Covers nodes placed) :
    (settle nodes placed).Perm (placed.map Prod.snd) := by
  have hp : (pick (settle nodes placed) (placed.map Prod.fst)).Perm
      (pick (settle nodes placed) (List.range (settle nodes placed).length)) := by
    rw [length_settle]
    exact pick_perm _ h.map_fst_perm
  have hsnd := hp.map Prod.snd
  rw [h.pick_settle fun _ => id, map_snd_pick_range] at hsnd
  exact hsnd.symm

theorem rowsOf_settle {rows : List (Placement α)} {layers : List (List Nat)}
    (h : Covers nodes rows.flatten) (hl : rows.map (List.map Prod.fst) = layers) :
    rowsOf (settle nodes rows.flatten) layers = rows.map (List.map Prod.snd) := by
  rw [← hl, rowsOf, List.map_map]
  refine List.map_congr_left fun row hr => ?_
  have hsub : row ⊆ rows.flatten := fun p hp => List.mem_flatten.2 ⟨row, hr, hp⟩
  rw [Function.comp_apply, h.pick_settle hsub]

end Covers

end

end Drafting.Layout
