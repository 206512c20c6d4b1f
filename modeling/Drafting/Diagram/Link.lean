import Drafting.Diagram

namespace Drafting

structure Endpoint (α : Type) where
  index : Nat
  node : Node α
deriving DecidableEq

structure Link (α : Type) where
  position : Nat
  edge : Edge
  source : Endpoint α
  target : Endpoint α
deriving DecidableEq

namespace Diagram

variable {α : Type}

/-- The node that an identifier stands for: the last one, should several have it. -/
def locate? (d : Diagram α) (id : String) : Option (Endpoint α) :=
  (d.nodes.zipIdx.reverse.find? fun p => p.1.id == id).map fun p => ⟨p.2, p.1⟩

def link? (d : Diagram α) (position : Nat) (e : Edge) : Option (Link α) := do
  some ⟨position, e, ← d.locate? e.source, ← d.locate? e.target⟩

def links (d : Diagram α) : List (Link α) :=
  d.edges.zipIdx.filterMap fun p => d.link? p.2 p.1

def connected (d : Diagram α) : List Edge := d.links.map Link.edge

end Diagram

end Drafting
