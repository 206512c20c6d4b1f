import Drafting.Diagram.Link
import Drafting.Layout.Conversation
import Drafting.Route.Path
import Drafting.Route.Side

namespace Drafting

open Scalar

structure Route (α : Type) where
  edge : String
  points : List (Point α)
  curve : Option (Curve α)
deriving DecidableEq

namespace Route

structure Lane where
  index : Nat
  total : Nat
deriving DecidableEq

def samePair (e f : Edge) : Bool :=
  (e.source == f.source && e.target == f.target) || (e.source == f.target && e.target == f.source)

/-- Lanes are counted along the direction in which the names of the ends ascend; an edge that runs
against it takes the mirror image of its lane. -/
def againstOrder (e : Edge) : Bool := decide (e.target < e.source)

def lane (all earlier : List Edge) (e : Edge) : Lane :=
  let total := all.countP (samePair e)
  let seen := earlier.countP (samePair e)
  ⟨if againstOrder e then total - (seen + 1) else seen, total⟩

section

variable {α : Type} [Scalar α]

def loop (n : Node α) (room : α) : List (Point α) :=
  let r := n.box
  let c := r.center
  [⟨r.right, c.y⟩, ⟨r.right + room, c.y⟩, ⟨r.right + room, r.y - room⟩, ⟨c.x, r.y - room⟩,
    ⟨c.x, r.y⟩]

def message (s : LayoutSettings α) (l : Link α) : List (Point α) :=
  let y := Layout.Conversation.messageY s (l.edge.order.getD l.position)
  let x := l.source.node.center.x
  if l.edge.source = l.edge.target then
    let back := y + s.sequence.pixelsPerMessage / 2
    [⟨x, y⟩, ⟨x + 40, y⟩, ⟨x + 40, back⟩, ⟨x, back⟩]
  else [⟨x, y⟩, ⟨l.target.node.center.x, y⟩]

end

variable {α : Type} [EuclideanScalar α]

def between (s : RoutingSettings α) (style : PathStyle) (lane : Lane) (l : Link α) : Route α :=
  let p := Side.departurePoint l.source.node l.target.node
  let q := Side.arrivalPoint l.source.node l.target.node
  let offset := Path.laneOffset lane.index lane.total s.parallelSpacing
  match style with
  | .direct => ⟨l.edge.id, Path.straight p q, none⟩
  | .elbow bend => ⟨l.edge.id, Path.offsetInside offset (Path.elbow bend p q), none⟩
  | .stepped =>
      ⟨l.edge.id, Path.parallel p q lane.index lane.total s.parallelSpacing, none⟩
  | .curved =>
      let c := Path.curve p q (s.curveCap + offset)
      ⟨l.edge.id, c.sample 12, some c⟩

def ofLink (s : LayoutSettings α) (kind : DiagramKind) (style : PathStyle) (lane : Lane)
    (l : Link α) : Route α :=
  if kind = .sequence then ⟨l.edge.id, message s l, none⟩
  else if l.edge.source = l.edge.target then ⟨l.edge.id, loop l.source.node 24, none⟩
  else between s.routing style lane l

end Route

def Diagram.routes {α : Type} [EuclideanScalar α] (s : LayoutSettings α) (style : PathStyle)
    (d : Diagram α) : List (Route α) :=
  let links := d.links
  let edges := links.map Link.edge
  links.zipIdx.map fun p =>
    Route.ofLink s d.kind style (Route.lane edges (edges.take p.2) p.1.edge) p.1

end Drafting
