import Drafting.Diagram.Link
import Drafting.Layout.Placement
import Drafting.Settings

namespace Drafting.Layout.UseCase

open Scalar

variable {α : Type} [Scalar α]

def isActor (n : Node α) : Bool := n.kind = .actor

def placeCases (s : UseCaseSettings α) (axis : α) (cases : Placement α) : Placement α :=
  List.zipWith (fun p top => (p.1, p.2.placeCorner (axis - p.2.width / 2) top)) cases
    (offsets 0 (cases.map fun p => p.2.height + s.rowGap))

def linkedHeights (links : List (Link α)) (actor : Nat) : List α :=
  links.filterMap fun l =>
    if isActor l.source.node && !isActor l.target.node && l.source.index == actor then
      some l.target.node.center.y
    else if !isActor l.source.node && isActor l.target.node && l.target.index == actor then
      some l.source.node.center.y
    else none

def mean (as : List α) : α := total as / (as.length : α)

structure Target (α : Type) where
  index : Nat
  node : Node α
  top : α

def targets (links : List (Link α)) (actors : Placement α) : List (Target α) :=
  (actors.filterMap fun p =>
    let heights := linkedHeights links p.1
    if heights.isEmpty then none else some ⟨p.1, p.2, mean heights - p.2.height / 2⟩).mergeSort
      fun a b => ranks a.top b.top

/-- Actors from the top down, each where it should be or, if that is taken, below the one before
it. -/
def pushDown (gap column : α) : Option α → List (Target α) → Placement α
  | _, [] => []
  | free, t :: rest =>
      let y := match free with
        | some f => greatest t.top f
        | none => t.top
      (t.index, t.node.placeCorner ((column - t.node.width) / 2) y) ::
        pushDown gap column (some (y + t.node.height + gap)) rest

def queueUp (gap column top : α) (actors : Placement α) : Placement α :=
  List.zipWith (fun p y => (p.1, p.2.placeCorner ((column - p.2.width) / 2) y)) actors
    (offsets top (actors.map fun p => p.2.height + gap))

def place (s : LayoutSettings α) (d : Diagram α) : List (Node α) :=
  let gap := s.useCase.rowGap
  let all : Placement α := d.nodes.zipIdx.map fun p => (p.2, p.1)
  let actors := all.filter fun p => isActor p.2
  let cases := all.filter fun p => !isActor p.2
  let column := peak (actors.map fun p => p.2.width)
  let axis := column + s.useCase.columnGap + peak (cases.map fun p => p.2.width) / 2
  let placedCases := placeCases s.useCase axis cases
  let links := { d with nodes := settle d.nodes placedCases }.links
  let targets := targets links actors
  let linked := pushDown gap column bottom targets
  let casesEnd := (cases.map fun p => p.2.height + gap).foldl (· + ·) 0 - gap
  let lowest := (linked.map fun p => p.2.y + p.2.height).foldl greatest casesEnd
  let idle := actors.filter fun p => !targets.any (·.index == p.1)
  let queued := queueUp gap column (greatest lowest 0 + gap) idle
  normalize s.padding (settle d.nodes (placedCases ++ (linked ++ queued)))

end Drafting.Layout.UseCase
