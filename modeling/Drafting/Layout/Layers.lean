import Drafting.Graph

namespace Drafting.Layout.Layers

open Drafting.Graph

variable {α : Type}

def fallbackRoot : DiagramKind → NodeKind
  | .classes => .classBox
  | .flow => .process
  | .mindmap => .root
  | .sequence | .useCase => .actor
  | .generic => .generic

def rootSet (d : Diagram α) (g : Graph) : List Nat :=
  let roots := (d.nodes.zipIdx.filter fun p => g.isInitial p.2 || p.1.kind.isRootLike).map Prod.snd
  if roots.isEmpty then [(d.nodes.findIdx? (·.kind = fallbackRoot d.kind)).getD 0] else roots

def overlay : List (List Nat) → List (List Nat) → List (List Nat)
  | [], layers => layers
  | layers, [] => layers
  | a :: as, b :: bs => (a ++ b) :: overlay as bs

def searchAll (g : Graph) : List Nat → List (List Nat) → List (List Nat) × List Nat
  | waiting, [] => ([], waiting)
  | waiting, group :: groups =>
      let frontier := group.filter waiting.contains
      let waves := g.waves (without waiting frontier) frontier
      let (later, rest) := searchAll g (without waiting waves.flatten) groups
      (overlay waves later, rest)

def seedGroups (d : Diagram α) (g : Graph) : List (List Nat) :=
  rootSet d g ::
    (d.nodes.zipIdx.filter fun p => !p.1.kind.isTerminal).map fun p => [p.2]

def appendToLast (layers : List (List Nat)) (stragglers : List Nat) : List (List Nat) :=
  match layers with
  | [] => [stragglers]
  | [layer] => [layer ++ stragglers]
  | layer :: layers => layer :: appendToLast layers stragglers

def layers (d : Diagram α) : List (List Nat) :=
  if d.nodes.isEmpty then []
  else
    let g := d.graph
    let (layers, stragglers) := searchAll g g.nodes (seedGroups d g)
    if stragglers.isEmpty then layers else appendToLast layers stragglers

end Drafting.Layout.Layers
