import Drafting.Scalar

namespace Drafting

structure Point (α : Type) where
  x : α
  y : α
deriving DecidableEq

structure Rect (α : Type) where
  x : α
  y : α
  width : α
  height : α
deriving DecidableEq

variable {α : Type} [Scalar α]

open Scalar

def Point.midpoint (p q : Point α) : Point α := ⟨(p.x + q.x) / 2, (p.y + q.y) / 2⟩

namespace Rect

def right (r : Rect α) : α := r.x + r.width

def bottom (r : Rect α) : α := r.y + r.height

def center (r : Rect α) : Point α := ⟨r.x + r.width / 2, r.y + r.height / 2⟩

def join (r s : Rect α) : Rect α :=
  let x := least r.x s.x
  let y := least r.y s.y
  ⟨x, y, greatest r.right s.right - x, greatest r.bottom s.bottom - y⟩

def overlaps (r s : Rect α) : Bool :=
  decide (r.x < s.right) && decide (s.x < r.right) && decide (r.y < s.bottom) &&
    decide (s.y < r.bottom)

def inflate (r : Rect α) (margin : α) : Rect α :=
  ⟨r.x - margin, r.y - margin, r.width + margin * 2, r.height + margin * 2⟩

def zero : Rect α := ⟨0, 0, 0, 0⟩

def enclosing? : List (Rect α) → Option (Rect α)
  | [] => none
  | r :: rs => some (rs.foldl join r)

end Rect

end Drafting
