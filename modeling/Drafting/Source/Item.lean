import Drafting.Diagram

namespace Drafting

structure Sketch.Item where
  kind : NodeKind
  label : String
  data : Option NodeData
deriving DecidableEq

def labelWidth {α : Type} [Scalar α] (characters : Nat) (padding low high : α) : α :=
  Scalar.clamp low high ((characters : α) * 8 + padding)

namespace Sketch.Item

variable {α : Type} [Scalar α]

def classSize (label : String) (c : Compartments) : α × α :=
  let separator : α := if c.attributes.isEmpty || c.methods.isEmpty then 0 else 15
  let height : α :=
    30 + (c.attributes.length : α) * 18 + separator + (c.methods.length : α) * 18 + 30
  let longest := (c.lines.map String.length).foldl max label.length
  (labelWidth longest 40 200 400, Scalar.greatest height 80)

def size (diagram : DiagramKind) (item : Item) : α × α :=
  let n := item.label.length
  match diagram, item.kind with
  | .classes, _ =>
      match item.data with
      | some (.members c) => classSize item.label c
      | _ => classSize item.label .empty
  | .sequence, _ => (labelWidth n 40 100 240, 50)
  | .useCase, .actor => (labelWidth n 20 80 160, 100)
  | .useCase, _ => (labelWidth n 40 140 300, 60)
  | .mindmap, .root => (labelWidth n 48 120 260, 60)
  | .mindmap, .branch => (labelWidth n 36 100 220, 44)
  | .mindmap, _ => (labelWidth n 28 80 200, 36)
  | _, .start => (80, 80)
  | _, .finish => (80, 80)
  | _, .decision => (labelWidth n 60 140 260, 90)
  | _, _ => (labelWidth n 40 120 240, 60)

def toNode (diagram : DiagramKind) (item : Item) (id : String) : Node α :=
  let size := item.size diagram
  ⟨id, item.kind, 0, 0, size.1, size.2, item.label, item.data⟩

end Sketch.Item

end Drafting
