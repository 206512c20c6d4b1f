import Drafting.Geometry
import Drafting.Diagram.Kind
import Drafting.Diagram.Member

namespace Drafting

inductive NodeData where
  | members (compartments : Compartments)
  | level (depth : Nat)
deriving DecidableEq

/-- The place of a node is its centre or its top left corner, as its kind says. -/
structure Node (α : Type) where
  id : String
  kind : NodeKind
  x : α
  y : α
  width : α
  height : α
  label : String
  data : Option NodeData
deriving DecidableEq

structure Edge where
  id : String
  source : String
  target : String
  label : Option String
  kind : Option EdgeKind
  order : Option Nat
deriving DecidableEq

structure Diagram (α : Type) where
  kind : DiagramKind
  nodes : List (Node α)
  edges : List Edge
  title : Option String
  skipped : List Nat
  unresolved : List String
deriving DecidableEq

namespace Node

variable {α : Type} [Scalar α]

def box (n : Node α) : Rect α :=
  if n.kind.isCentered then ⟨n.x - n.width / 2, n.y - n.height / 2, n.width, n.height⟩
  else ⟨n.x, n.y, n.width, n.height⟩

def center (n : Node α) : Point α := n.box.center

def placeCorner (n : Node α) (left top : α) : Node α :=
  if n.kind.isCentered then { n with x := left + n.width / 2, y := top + n.height / 2 }
  else { n with x := left, y := top }

def placeCenter (n : Node α) (x y : α) : Node α :=
  n.placeCorner (x - n.width / 2) (y - n.height / 2)

def level (n : Node α) : Option Nat :=
  match n.data with
  | some (.level depth) => some depth
  | _ => none

def extent (nodes : List (Node α)) : Option (Rect α) := Rect.enclosing? (nodes.map box)

end Node

namespace Diagram

variable {α : Type}

def empty (kind : DiagramKind) : Diagram α := ⟨kind, [], [], none, [], []⟩

def node? (d : Diagram α) (id : String) : Option (Node α) := d.nodes.find? (·.id == id)

def extent [Scalar α] (d : Diagram α) : Option (Rect α) := Node.extent d.nodes

end Diagram

end Drafting
