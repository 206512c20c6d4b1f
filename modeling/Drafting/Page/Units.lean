import Drafting.Graph
import Drafting.Page.Pack

namespace Drafting.Page

open Scalar Drafting.Graph

def clustersFrom (g : Graph) : List Nat → List Nat → List (List Nat)
  | _, [] => []
  | waiting, i :: rest =>
      if waiting.contains i then
        let others := without waiting [i]
        let cluster := i :: ((g.neighbours i).filter others.contains).eraseDups
        cluster :: clustersFrom g (without waiting cluster) rest
      else clustersFrom g waiting rest

def clusters (g : Graph) : List (List Nat) := clustersFrom g g.nodes g.nodes

/-- The nodes at each distance from the roots, in their own order; those out of reach come
last. -/
def levels (g : Graph) (isRoot : Nat → Bool) : List (List Nat) :=
  let roots := g.nodes.filter isRoot
  let waves := g.waves (without g.nodes roots) roots
  let unreached := without g.nodes waves.flatten
  waves.map (fun w => g.nodes.filter w.contains) ++
    if unreached.isEmpty then [] else [unreached]

variable {α : Type}

def levelsOf (d : Diagram α) : List (List Nat) :=
  let g := d.graph
  levels g fun i => g.isInitial i || d.nodes[i]?.any (·.kind = .root)

variable [Scalar α]

/-- Runs of nodes, in order from the top, whose tops are within the tolerance of the first. -/
def bandsFrom (tolerance : α) : List Nat → α → List (Nat × Rect α) → List (List Nat)
  | band, _, [] => [band]
  | band, top, (i, r) :: rest =>
      if r.y - top ≤ tolerance then bandsFrom tolerance (band ++ [i]) top rest
      else band :: bandsFrom tolerance [i] r.y rest

def bands (tolerance : α) (nodes : List (Node α)) : List (List Nat) :=
  match readingOrder nodes (List.range nodes.length) with
  | [] => []
  | (i, r) :: rest => bandsFrom tolerance [i] r.y rest

structure Cell where
  row : Nat
  column : Nat
deriving DecidableEq

/-- The cell of size `width` by `height` that holds a point, in a grid over the given rectangle. A
point beyond the last cell belongs to it. -/
def Cell.holding (area : Rect α) (width height : α) (p : Point α) : Cell :=
  let columns := max (ceilNat (area.width / width)) 1
  let rows := max (ceilNat (area.height / height)) 1
  ⟨min (floorNat ((p.y - area.y) / height)) (rows - 1),
    min (floorNat ((p.x - area.x) / width)) (columns - 1)⟩

def Cell.before (a b : Cell) : Bool :=
  decide (a.row < b.row ∨ a.row = b.row ∧ a.column ≤ b.column)

def cells (s : PageSettings α) (area : Rect α) (nodes : List (Node α)) : List (List Nat) :=
  let width := greatest s.maxWidth 1
  let height := greatest s.maxHeight 1
  let placed := nodes.map fun n => Cell.holding area width height n.center
  (placed.eraseDups.mergeSort Cell.before).map fun c =>
    (List.range nodes.length).filter fun i => placed[i]? == some c

end Drafting.Page
