import Drafting.Geometry
import Drafting.Diagram.Kind

namespace Drafting

open Scalar

inductive Bend where
  | vertical
  | horizontal
deriving DecidableEq

inductive PathStyle where
  | direct
  | elbow (bend : Bend)
  | stepped
  | curved
deriving DecidableEq

namespace PathStyle

def standard : DiagramKind → PathStyle
  | .mindmap => curved
  | .flow => stepped
  | .sequence => direct
  | .classes | .useCase | .generic => elbow .vertical

def name : PathStyle → String
  | direct => "direct"
  | elbow .vertical => "orthogonal-vertical"
  | elbow .horizontal => "orthogonal-horizontal"
  | stepped => "mermaid"
  | curved => "curved"

def ofName? (s : String) : Option PathStyle :=
  [direct, elbow .vertical, elbow .horizontal, stepped, curved].find? (·.name == s)

end PathStyle

structure Curve (α : Type) where
  start : Point α
  control : Point α
  finish : Point α
deriving DecidableEq

namespace Curve

variable {α : Type} [Scalar α]

def point (c : Curve α) (t : α) : Point α :=
  let u := 1 - t
  ⟨u * u * c.start.x + 2 * u * t * c.control.x + t * t * c.finish.x,
    u * u * c.start.y + 2 * u * t * c.control.y + t * t * c.finish.y⟩

def sample (c : Curve α) (segments : Nat) : List (Point α) :=
  let n := max segments 1
  (List.range (n + 1)).map fun (k : Nat) => c.point ((k : α) / (n : α))

end Curve

namespace Path

section

variable {α : Type} [Scalar α]

def straight (p q : Point α) : List (Point α) := [p, q]

def elbow (bend : Bend) (p q : Point α) : List (Point α) :=
  match bend with
  | .vertical =>
      let y := (p.y + q.y) / 2
      [p, ⟨p.x, y⟩, ⟨q.x, y⟩, q]
  | .horizontal =>
      let x := (p.x + q.x) / 2
      [p, ⟨x, p.y⟩, ⟨x, q.y⟩, q]

/-- Half a unit: points that differ by less count as level, and shorter segments have no
direction. -/
def tolerance : α := 1 / 2

def aligned (p q : Point α) : Bool :=
  decide (abs (p.x - q.x) < tolerance) || decide (abs (p.y - q.y) < tolerance)

def stepped (p q : Point α) : List (Point α) :=
  if aligned p q then [p, p.midpoint q, q]
  else if abs (q.x - p.x) < abs (q.y - p.y) then elbow .vertical p q
  else elbow .horizontal p q

def laneOffset (index total : Nat) (spacing : α) : α :=
  if total < 2 then 0 else spacing * ((index : α) - ((total : α) - 1) / 2)

end

section

variable {α : Type} [EuclideanScalar α]

def length (p q : Point α) : α :=
  let dx := q.x - p.x
  let dy := q.y - p.y
  EuclideanScalar.sqrt (dx * dx + dy * dy)

def normal? (p q : Point α) : Option (Point α) :=
  let n := length p q
  if tolerance ≤ n then some ⟨-(q.y - p.y) / n, (q.x - p.x) / n⟩ else none

def displace (p normal : Point α) (offset : α) : Point α :=
  ⟨p.x + normal.x * offset, p.y + normal.y * offset⟩

/-- The path with its inside moved sideways. The middle segment of a bent path moves across its
own direction, or across the line between the ends if it has none; any other path goes by way of
its displaced midpoint. -/
def offsetInside (offset : α) (path : List (Point α)) : List (Point α) :=
  if offset ≤ 0 ∧ 0 ≤ offset then path
  else match path with
    | [p, a, b, q] =>
        match (normal? a b).or (normal? p q) with
        | some n => [p, displace a n offset, displace b n offset, q]
        | none => [p, a, b, q]
    | p :: r :: rest =>
        let q := (r :: rest).getLast (List.cons_ne_nil r rest)
        match normal? p q with
        | some n => [p, displace (p.midpoint q) n offset, q]
        | none => p :: r :: rest
    | path => path

def parallel (p q : Point α) (index total : Nat) (spacing : α) : List (Point α) :=
  offsetInside (laneOffset index total spacing) (stepped p q)

/-- The least length that counts as a distance for a curve, a step of single precision at one. -/
def curveTolerance : α := 1 / 8388608

/-- A curve that bows out to the left by three tenths of the distance, but by no more than the
cap. -/
def curve (p q : Point α) (cap : α) : Curve α :=
  let n := length p q
  let mid := p.midpoint q
  let control :=
    if n < curveTolerance then mid
    else
      let bow := least (3 / 10 * n) cap
      ⟨mid.x - (q.y - p.y) / n * bow, mid.y + (q.x - p.x) / n * bow⟩
  ⟨p, control, q⟩

end

end Path

end Drafting
