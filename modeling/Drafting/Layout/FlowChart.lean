import Drafting.Layout.Layers
import Drafting.Layout.Placement
import Drafting.Settings

namespace Drafting.Layout.FlowChart

open Scalar

variable {α : Type} [Scalar α]

def isEnd (d : Diagram α) (i : Nat) : Bool :=
  match d.nodes[i]? with
  | some n => n.kind = .finish
  | none => false

/-- The layers with their ends taken out and put into one last layer; layers that are left empty
disappear. -/
def consolidate (d : Diagram α) (layers : List (List Nat)) : List (List Nat) :=
  let kept := (layers.map fun l => l.filter fun i => !isEnd d i).filter fun l => !l.isEmpty
  let ends := layers.flatMap fun l => l.filter (isEnd d)
  if ends.isEmpty then kept else kept ++ [ends]

def layers (d : Diagram α) : List (List Nat) := consolidate d (Layers.layers d)

def rule (s : FlowSettings α) : RowRule α where
  extent row :=
    total (row.map Node.width) + s.nodeSeparation * (((row.length - 1 : Nat) : α))
  advance n := n.width + s.nodeSeparation
  descent row := peak (row.map Node.height) + s.rankSeparation

def least? : List α → Option α
  | [] => none
  | a :: as => some (as.foldl least a)

def shiftRow (minX : α) (row : Placement α) : Placement α :=
  match least? (row.map fun p => p.2.box.x) with
  | some leftmost =>
      if leftmost < minX then
        row.map fun p => (p.1, { p.2 with x := p.2.x + (minX - leftmost) })
      else row
  | none => row

def place (s : LayoutSettings α) (d : Diagram α) : List (Node α) :=
  let layers := layers d
  let placed := placeRows (rule s.flow) (layers.map (pick d.nodes))
  let nodes := normalize s.padding (settle d.nodes placed)
  settle nodes (layers.flatMap fun l => shiftRow s.flow.minX (pick nodes l))

end Drafting.Layout.FlowChart
