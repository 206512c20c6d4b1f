import Drafting.Layout.Placement
import Drafting.Settings

namespace Drafting.Layout.Conversation

open Scalar

variable {α : Type} [Scalar α]

def messageY (s : LayoutSettings α) (order : Nat) : α :=
  s.padding + s.sequence.headerHeight + (order : α) * s.sequence.pixelsPerMessage

def advance (s : SequenceSettings α) (n : Node α) : α := greatest s.actorSpacing (n.width + 50)

def place (s : LayoutSettings α) (d : Diagram α) : List (Node α) :=
  normalize s.padding
    (List.zipWith (fun n x => n.placeCorner x 0) d.nodes
      (offsets 0 (d.nodes.map (advance s.sequence))))

end Drafting.Layout.Conversation
