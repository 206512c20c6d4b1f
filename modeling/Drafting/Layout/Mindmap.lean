import Drafting.Graph.Forest
import Drafting.Layout.Placement
import Drafting.Settings

namespace Drafting.Layout.Mindmap

open Scalar Drafting.Graph

variable {α : Type}

def preferredRoots (d : Diagram α) (g : Graph) : List Nat :=
  (d.nodes.zipIdx.filter fun p => p.1.kind = .root || g.isInitial p.2).map Prod.snd

def trees (d : Diagram α) : List Forest :=
  let g := d.graph
  g.spanFrom g.nodes (preferredRoots d g ++ g.nodes)

variable [Scalar α]

def widthOf (nodes : List (Node α)) (i : Nat) : α :=
  match nodes[i]? with
  | some n => n.width
  | none => 0

def widen (nodes : List (Node α)) : Forest → List α → List α
  | .nil, ws => ws
  | .cons i children siblings, ws =>
      let ws := widen nodes siblings ws
      greatest (ws.headD 0) (widthOf nodes i) :: widen nodes children ws.tail

def widths (nodes : List (Node α)) (f : Forest) : List α := widen nodes f []

def columnSteps (step : α) : List α → List α
  | a :: b :: rest => greatest step (a / 2 + b / 2 + 40) :: columnSteps step (b :: rest)
  | _ => []

def columns (s : MindmapSettings α) (rootWidth : α) (widths : List α) : List α :=
  let steps := columnSteps s.horizontalStep (rootWidth :: widths)
  (offsets 0 (steps ++ [0])).drop 1

def span (unit : α) (children : Forest) : α := ((max 1 children.weight : Nat) : α) * unit

def spans (unit : α) : Forest → List α
  | .nil => []
  | .cons _ children siblings => span unit children :: spans unit siblings

def placeBand (nodes : List (Node α)) (unit x : α) : α → Forest → Placement α
  | _, .nil => []
  | top, .cons i children siblings =>
      let height := span unit children
      (pick nodes [i]).map (fun p => (p.1, p.2.placeCenter x (top + height / 2))) ++
        placeBand nodes unit x (top + height) siblings

/-- The children of a row of siblings, each family inside the band of its parent and the last
family first. -/
def placeFamilies (nodes : List (Node α)) (unit direction : α) :
    List α → α → Forest → Placement α
  | _, _, .nil => []
  | columns, top, .cons _ children siblings =>
      placeFamilies nodes unit direction columns (top + span unit children) siblings ++
        (placeBand nodes unit (direction * columns.headD 0) top children ++
          placeFamilies nodes unit direction columns.tail top children)

def placeSide (s : MindmapSettings α) (nodes : List (Node α)) (root : Nat) (direction : α)
    (side : Forest) : Placement α :=
  let columns := columns s (widthOf nodes root) (widths nodes side)
  let top := -(total (spans s.unitHeight side)) / 2
  placeBand nodes s.unitHeight (direction * columns.headD 0) top side ++
    placeFamilies nodes s.unitHeight direction columns.tail top side

/-- A tree around its root. The first half of the children, the larger one if there is an odd
number of them, goes to the right. -/
def placeTree (s : MindmapSettings α) (nodes : List (Node α)) (root : Nat) (children : Forest) :
    Placement α :=
  let half := (children.roots.length + 1) / 2
  (pick nodes [root]).map (fun p => (p.1, p.2.placeCenter 0 0)) ++
    (placeSide s nodes root 1 (children.take half) ++
      placeSide s nodes root (-1) (children.drop half))

def stack (s : MindmapSettings α) (nodes : List (Node α)) : α → List Forest → Placement α
  | _, [] => []
  | top, .nil :: trees => stack s nodes top trees
  | top, .cons root children _ :: trees =>
      let placed := placeTree s nodes root children
      match Node.extent (placed.map Prod.snd) with
      | none => stack s nodes top trees
      | some r =>
          let dy := top - r.y
          placed.map (fun p => (p.1, { p.2 with y := p.2.y + dy })) ++
            stack s nodes (r.bottom + dy + s.unitHeight) trees

def place (s : LayoutSettings α) (d : Diagram α) : List (Node α) :=
  normalize s.padding (settle d.nodes (stack s.mindmap d.nodes 0 (trees d)))

end Drafting.Layout.Mindmap
