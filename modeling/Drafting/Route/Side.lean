import Drafting.Diagram

namespace Drafting

inductive Side where
  | top
  | right
  | bottom
  | left
deriving DecidableEq

namespace Side

open Scalar

variable {α : Type} [Scalar α]

def name : Side → String
  | top => "top"
  | right => "right"
  | bottom => "bottom"
  | left => "left"

/-- The middle of a side of a node's box. The corners of the diamond of a decision lie there. -/
def point (side : Side) (n : Node α) : Point α :=
  let r := n.box
  let c := r.center
  match side with
  | top => ⟨c.x, r.y⟩
  | right => ⟨r.right, c.y⟩
  | bottom => ⟨c.x, r.bottom⟩
  | left => ⟨r.x, c.y⟩

/-- How much further than down an edge has to lead sideways to leave a shape by its flank. Shapes
of flow charts prefer their top and bottom. -/
def verticalBias (kind : NodeKind) : α :=
  if kind = .decision then 18 / 10 else if kind.isFlowShape then 3 / 2 else 1

def departure (source target : Node α) : Side :=
  let dx := target.center.x - source.center.x
  let dy := target.center.y - source.center.y
  if abs dy * verticalBias source.kind < abs dx then if 0 ≤ dx then right else left
  else if 0 ≤ dy then bottom
  else top

def arrival (source target : Node α) : Side :=
  let dx := target.center.x - source.center.x
  let dy := target.center.y - source.center.y
  if 3 / 10 * abs dx < abs dy then if 0 ≤ dy then top else bottom
  else if 0 ≤ dx then left
  else right

def departurePoint (source target : Node α) : Point α := (departure source target).point source

def arrivalPoint (source target : Node α) : Point α := (arrival source target).point target

end Side

end Drafting
