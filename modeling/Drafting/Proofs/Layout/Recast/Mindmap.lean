import Drafting.Proofs.Layout.Recast

namespace Drafting.Layout.Mindmap

open Scalar Node

variable {α : Type} [Scalar α] (f : String → String) (s : MindmapSettings α) (nodes : List (Node α))

theorem widthOf_recast (i : Nat) : widthOf (nodes.map (recast f)) i = widthOf nodes i := by
  rw [widthOf, widthOf, List.getElem?_map]
  cases nodes[i]? <;> rfl

theorem widen_recast (trees : Forest) (ws : List α) :
    widen (nodes.map (recast f)) trees ws = widen nodes trees ws := by
  induction trees generalizing ws with
  | nil => rfl
  | cons i children siblings ihc ihs => rw [widen, widen, widthOf_recast, ihs, ihc]

theorem pick_centers_recast (i : Nat) (x y : α) :
    ((pick (nodes.map (recast f)) [i]).map fun p => (p.1, p.2.placeCenter x y)) =
      onNodes (rename f) ((pick nodes [i]).map fun p => (p.1, p.2.placeCenter x y)) := by
  rw [pick_map, onNodes, onNodes, List.map_map, List.map_map]
  exact List.map_congr_left fun p _ => congrArg (p.1, ·) (p.2.placeCenter_recast f x y)

theorem placeBand_recast (unit x top : α) (trees : Forest) :
    placeBand (nodes.map (recast f)) unit x top trees =
      onNodes (rename f) (placeBand nodes unit x top trees) := by
  induction trees generalizing top with
  | nil => rfl
  | cons i children siblings _ ihs =>
      rw [placeBand, placeBand, pick_centers_recast, ihs, onNodes_append]

theorem placeFamilies_recast (unit direction : α) (columns : List α) (top : α) (trees : Forest) :
    placeFamilies (nodes.map (recast f)) unit direction columns top trees =
      onNodes (rename f) (placeFamilies nodes unit direction columns top trees) := by
  induction trees generalizing columns top with
  | nil => rfl
  | cons i children siblings ihc ihs =>
      rw [placeFamilies, placeFamilies, placeBand_recast, ihc, ihs, onNodes_append, onNodes_append]

theorem placeSide_recast (root : Nat) (direction : α) (side : Forest) :
    placeSide s (nodes.map (recast f)) root direction side =
      onNodes (rename f) (placeSide s nodes root direction side) := by
  rw [placeSide, placeSide, widthOf_recast, widths, widths, widen_recast, placeBand_recast,
    placeFamilies_recast, onNodes_append]

theorem placeTree_recast (root : Nat) (children : Forest) :
    placeTree s (nodes.map (recast f)) root children =
      onNodes (rename f) (placeTree s nodes root children) := by
  rw [placeTree, placeTree, pick_centers_recast, placeSide_recast, placeSide_recast,
    onNodes_append, onNodes_append]

theorem stack_recast (top : α) (trees : List Forest) :
    stack s (nodes.map (recast f)) top trees = onNodes (rename f) (stack s nodes top trees) := by
  induction trees generalizing top with
  | nil => rfl
  | cons tree trees ih =>
      cases tree with
      | nil => exact ih top
      | cons root children siblings =>
          simp only [stack, placeTree_recast, map_snd_onNodes, extent_rename]
          cases extent ((placeTree s nodes root children).map Prod.snd) with
          | none => exact ih top
          | some r =>
              have hmove := onNodes_comm (g := fun n => { n with y := n.y + (top - r.y) })
                (h := rename f) (fun _ => rfl) (placeTree s nodes root children)
              rw [onNodes_append]
              exact congrArg₂ (· ++ ·) hmove (ih _)

end Drafting.Layout.Mindmap
