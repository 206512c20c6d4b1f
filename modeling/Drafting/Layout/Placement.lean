import Drafting.Diagram

namespace Drafting.Layout

open Scalar

variable {α : Type}

abbrev Placement (α : Type) := List (Nat × Node α)

def pick (nodes : List (Node α)) (positions : List Nat) : Placement α :=
  positions.filterMap fun i => nodes[i]?.map (i, ·)

def settle (nodes : List (Node α)) (placed : Placement α) : List (Node α) :=
  nodes.zipIdx.map fun p => (placed.lookup p.2).getD p.1

variable [Scalar α]

def normalize (padding : α) (nodes : List (Node α)) : List (Node α) :=
  match Node.extent nodes with
  | none => nodes
  | some r =>
      let dx := padding - r.x
      let dy := padding - r.y
      if (dx ≤ 0 ∧ 0 ≤ dx) ∧ (dy ≤ 0 ∧ 0 ≤ dy) then nodes
      else nodes.map fun n => { n with x := n.x + dx, y := n.y + dy }

/-- How rows are spaced: the width of a row, and the distances from a node and from a row to the
next one. -/
structure RowRule (α : Type) where
  extent : List (Node α) → α
  advance : Node α → α
  descent : List (Node α) → α

def placeRow (rule : RowRule α) (left top : α) (row : Placement α) : Placement α :=
  List.zipWith (fun p x => (p.1, p.2.placeCorner x top)) row
    (offsets left (row.map fun p => rule.advance p.2))

def placeRows (rule : RowRule α) (rows : List (Placement α)) : Placement α :=
  let extents := rows.map fun row => rule.extent (row.map Prod.snd)
  let widest := peak extents
  let tops := offsets 0 (rows.map fun row => rule.descent (row.map Prod.snd))
  (rows.zip (extents.zip tops)).flatMap fun (row, extent, top) =>
    placeRow rule ((widest - extent) / 2) top row

end Drafting.Layout
