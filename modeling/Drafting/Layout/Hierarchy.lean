import Drafting.Layout.Layers
import Drafting.Layout.Placement
import Drafting.Settings

namespace Drafting.Layout.Hierarchy

open Scalar

variable {α : Type} [Scalar α]

def advance (s : HierarchySettings α) (n : Node α) : α :=
  greatest s.horizontalSpacing (n.width + s.nodeMargin)

def extent (s : HierarchySettings α) (row : List (Node α)) : α :=
  match (row.zip (offsets 0 (row.map (advance s)))).getLast? with
  | some (n, left) => left + n.width
  | none => 0

def descent (s : HierarchySettings α) (row : List (Node α)) : α :=
  greatest s.verticalSpacing (peak (row.map Node.height) + s.layerMargin)

def rule (s : HierarchySettings α) : RowRule α := ⟨extent s, advance s, descent s⟩

def place (s : LayoutSettings α) (d : Diagram α) : List (Node α) :=
  let rows := (Layers.layers d).map (pick d.nodes)
  normalize s.padding (settle d.nodes (placeRows (rule s.hierarchy) rows))

end Drafting.Layout.Hierarchy
