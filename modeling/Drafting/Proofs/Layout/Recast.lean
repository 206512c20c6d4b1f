import Drafting.Layout
import Drafting.Proofs.Layout.Placement
import Drafting.Proofs.Rename

namespace Drafting

open Scalar

variable {α : Type} [Scalar α] (f : String → String)

namespace Node

def recast (n : Node α) : Node α := (n.rename f).unplaced

@[simp] theorem kind_recast (n : Node α) : (n.recast f).kind = n.kind := rfl

@[simp] theorem width_recast (n : Node α) : (n.recast f).width = n.width := rfl

@[simp] theorem height_recast (n : Node α) : (n.recast f).height = n.height := rfl

theorem extent_rename (nodes : List (Node α)) : extent (nodes.map (rename f)) = extent nodes := by
  rw [extent, extent, List.map_map]
  rfl

@[simp] theorem placeCorner_recast (n : Node α) (left top : α) :
    (n.recast f).placeCorner left top = (n.placeCorner left top).rename f := by
  rw [placeCorner, placeCorner, kind_recast]
  split <;> rfl

@[simp] theorem placeCenter_recast (n : Node α) (x y : α) :
    (n.recast f).placeCenter x y = (n.placeCenter x y).rename f :=
  n.placeCorner_recast f _ _

end Node

open Node

namespace Layout

variable {nodes : List (Node α)} {row placed : Placement α}

theorem Covers.settle_recast (h : Covers nodes placed) :
    settle (nodes.map (recast f)) (onNodes (rename f) placed) =
      (settle nodes placed).map (rename f) := by
  rw [← List.map_id (settle _ _)]
  exact map_settle_map (fun _ => rfl) fun i n hn hl => absurd hl (h.lookup_ne_none hn)

omit [Scalar α] in
theorem settle_rename (nodes : List (Node α)) (placed : Placement α) :
    settle (nodes.map (rename f)) (onNodes (rename f) placed) =
      (settle nodes placed).map (rename f) := by
  rw [← List.map_id (settle _ _)]
  exact map_settle_map (fun _ => rfl) fun _ _ _ _ => rfl

theorem normalize_rename (padding : α) (nodes : List (Node α)) :
    normalize padding (nodes.map (rename f)) = (normalize padding nodes).map (rename f) := by
  rw [normalize, normalize, extent_rename]
  cases extent nodes with
  | none => rfl
  | some r =>
      dsimp only
      split
      · rfl
      · rw [List.map_map, List.map_map]
        rfl

theorem zipWith_recast (left top : Node α → α → α) (hl : ∀ n, left (recast f n) = left n)
    (ht : ∀ n, top (recast f n) = top n) (row : Placement α) (xs : List α) :
    List.zipWith (fun p x => (p.1, p.2.placeCorner (left p.2 x) (top p.2 x)))
        (onNodes (recast f) row) xs =
      onNodes (rename f)
        (List.zipWith (fun p x => (p.1, p.2.placeCorner (left p.2 x) (top p.2 x))) row xs) := by
  rw [onNodes, onNodes, List.zipWith_map_left, List.map_zipWith]
  simp only [hl, ht, placeCorner_recast]

/-- A rule that measures nothing but kinds and sizes. -/
structure RowRule.Blind (rule : RowRule α) : Prop where
  extent : ∀ row, rule.extent (row.map (recast f)) = rule.extent row
  advance : ∀ n, rule.advance (recast f n) = rule.advance n
  descent : ∀ row, rule.descent (row.map (recast f)) = rule.descent row

section

variable {f} {rule : RowRule α}

theorem RowRule.Blind.placeRow (hr : rule.Blind f) (left top : α) (row : Placement α) :
    placeRow rule left top (onNodes (recast f) row) =
      onNodes (rename f) (placeRow rule left top row) := by
  rw [Layout.placeRow, Layout.placeRow, map_onNodes _ hr.advance]
  exact zipWith_recast f (fun _ x => x) (fun _ _ => top) (fun _ => rfl) (fun _ => rfl) row _

theorem RowRule.Blind.placeRows (hr : rule.Blind f) (rows : List (Placement α)) :
    placeRows rule (rows.map (onNodes (recast f))) = onNodes (rename f) (placeRows rule rows) := by
  have hextents : (rows.map (onNodes (recast f))).map (fun row => rule.extent (row.map Prod.snd)) =
      rows.map fun row => rule.extent (row.map Prod.snd) := by
    rw [List.map_map]
    exact List.map_congr_left fun row _ => by
      rw [Function.comp_apply, map_snd_onNodes, hr.extent]
  have htops : (rows.map (onNodes (recast f))).map (fun row => rule.descent (row.map Prod.snd)) =
      rows.map fun row => rule.descent (row.map Prod.snd) := by
    rw [List.map_map]
    exact List.map_congr_left fun row _ => by
      rw [Function.comp_apply, map_snd_onNodes, hr.descent]
  rw [Layout.placeRows, Layout.placeRows, hextents, htops, List.zip_map_left, List.flatMap_map,
    onNodes, List.map_flatMap]
  exact List.flatMap_congr fun p _ => hr.placeRow _ _ _

end

theorem Hierarchy.blind_rule (s : HierarchySettings α) : (rule s).Blind f := by
  have hsteps (row : List (Node α)) :
      (row.map (recast f)).map (advance s) = row.map (advance s) := by
    rw [List.map_map]
    rfl
  constructor
  · intro row
    change extent s _ = extent s row
    rw [extent, extent, hsteps, List.zip_map_left, List.getLast?_map]
    cases (row.zip (offsets 0 (row.map (advance s)))).getLast? <;> rfl
  · intro n
    rfl
  · intro row
    change descent s _ = descent s row
    rw [descent, descent, List.map_map]
    rfl

theorem FlowChart.blind_rule (s : FlowSettings α) : (rule s).Blind f := by
  constructor
  · intro row
    simp [rule, List.map_map, Function.comp_def]
  · intro n
    rfl
  · intro row
    simp [rule, List.map_map, Function.comp_def]

theorem FlowChart.shiftRow_rename (minX : α) (row : Placement α) :
    shiftRow minX (onNodes (rename f) row) = onNodes (rename f) (shiftRow minX row) := by
  rw [shiftRow, shiftRow, map_onNodes (rename f) (v := fun n => n.box.x) fun _ => rfl]
  cases least? (row.map fun p => p.2.box.x) with
  | none => rfl
  | some leftmost =>
      dsimp only
      split
      · exact onNodes_comm (g := fun n => { n with x := n.x + (minX - leftmost) })
          (fun _ => rfl) row
      · rfl

theorem FlowChart.shiftRows_rename (minX : α) (nodes : List (Node α)) (layers : List (List Nat)) :
    (layers.flatMap fun l => shiftRow minX (pick (nodes.map (rename f)) l)) =
      onNodes (rename f) (layers.flatMap fun l => shiftRow minX (pick nodes l)) := by
  rw [onNodes, List.map_flatMap]
  refine List.flatMap_congr fun l _ => ?_
  rw [pick_map, shiftRow_rename]
  rfl

theorem Conversation.place_recast (s : LayoutSettings α) {d e : Diagram α}
    (hn : e.nodes = d.nodes.map (recast f)) : place s e = (place s d).map (rename f) := by
  have hsteps : (d.nodes.map (recast f)).map (advance s.sequence) =
      d.nodes.map (advance s.sequence) := List.map_map
  rw [place, place, hn, hsteps, ← normalize_rename, List.zipWith_map_left, List.map_zipWith]
  simp only [placeCorner_recast]

end Layout

end Drafting
