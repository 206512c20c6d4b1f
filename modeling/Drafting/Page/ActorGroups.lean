import Drafting.Graph

namespace Drafting.Page

variable {α : Type}

abbrev Owners := List (Option Nat)

namespace Owners

def strongest (g : Graph) (actors : List Nat) (i : Nat) : Option Nat :=
  let best := actors.foldl (fun (best : Option (Nat × Nat)) a =>
    let links := (g.neighbours i).count a
    let most := match best with
      | some (_, most) => most
      | none => 0
    if most < links then some (a, links) else best) none
  best.map Prod.fst

def direct (g : Graph) (actors : List Nat) : Owners :=
  g.nodes.map fun i => if actors.contains i then none else strongest g actors i

def inherited (g : Graph) (actors : List Nat) (owners : Owners) (i : Nat) : Option Nat :=
  (g.neighbours i).findSome? fun j => if actors.contains j then none else owners.getD j none

def sweep (g : Graph) (actors : List Nat) (owners : Owners) : Owners :=
  g.nodes.foldl (fun owners i =>
    if actors.contains i || (owners.getD i none).isSome then owners
    else owners.set i (inherited g actors owners i)) owners

def unowned (owners : Owners) : Nat := owners.countP Option.isNone

def settle (g : Graph) (actors : List Nat) (owners : Owners) : Owners :=
  let next := sweep g actors owners
  if unowned next < unowned owners then settle g actors next else owners
termination_by unowned owners

end Owners

def actorGroups (d : Diagram α) : List (List Nat) :=
  let g := d.graph
  let actors := (d.nodes.zipIdx.filter fun p => p.1.kind = .actor).map Prod.snd
  let owners := Owners.settle g actors (Owners.direct g actors)
  let cases := g.nodes.filter fun i => !actors.contains i
  let orphans := cases.filter fun i => (owners.getD i none).isNone
  actors.map (fun a => a :: cases.filter fun i => owners.getD i none == some a) ++
    if orphans.isEmpty then [] else [orphans]

end Drafting.Page
