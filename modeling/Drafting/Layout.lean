import Drafting.Layout.Hierarchy
import Drafting.Layout.FlowChart
import Drafting.Layout.Mindmap
import Drafting.Layout.Conversation
import Drafting.Layout.UseCase

namespace Drafting

variable {α : Type} [Scalar α]

namespace Layout

def standardSize : NodeKind → α × α
  | .classBox => (200, 80)
  | .actor => (80, 100)
  | .start | .finish => (80, 80)
  | .decision => (140, 90)
  | .useCase => (140, 60)
  | .root => (120, 60)
  | .branch => (100, 44)
  | .leaf => (80, 36)
  | .process | .input | .output | .generic => (120, 60)

def ensureSize (n : Node α) : Node α :=
  let size : α × α := standardSize n.kind
  { n with
    width := if 0 < n.width then n.width else size.1
    height := if 0 < n.height then n.height else size.2 }

def place (s : LayoutSettings α) (d : Diagram α) : List (Node α) :=
  match d.kind with
  | .classes | .generic => Hierarchy.place s d
  | .flow => FlowChart.place s d
  | .mindmap => Mindmap.place s d
  | .sequence => Conversation.place s d
  | .useCase => UseCase.place s d

end Layout

def Diagram.layout (s : LayoutSettings α) (d : Diagram α) : Diagram α :=
  let sized := { d with nodes := d.nodes.map Layout.ensureSize }
  { sized with nodes := Layout.place s sized }

end Drafting
