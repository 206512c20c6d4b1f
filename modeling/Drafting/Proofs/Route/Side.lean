import Mathlib.Tactic.Positivity
import Mathlib.Tactic.Ring
import Drafting.Proofs.Exact
import Drafting.Route.Side

namespace Drafting

variable {K : Type} [Field K] [LinearOrder K] [FloorSemiring K]

namespace Rect

def corners (r : Rect K) : Side → Point K × Point K
  | .top => (⟨r.x, r.y⟩, ⟨r.right, r.y⟩)
  | .right => (⟨r.right, r.y⟩, ⟨r.right, r.bottom⟩)
  | .bottom => (⟨r.x, r.bottom⟩, ⟨r.right, r.bottom⟩)
  | .left => (⟨r.x, r.y⟩, ⟨r.x, r.bottom⟩)

def middle (r : Rect K) (side : Side) : Point K := (r.corners side).1.midpoint (r.corners side).2

end Rect

theorem Side.point_eq_middle (side : Side) (n : Node K) : side.point n = n.box.middle side := by
  cases side <;>
    simp only [point, Rect.middle, Rect.corners, Point.midpoint, Rect.center, Rect.right,
      Rect.bottom, Point.mk.injEq] <;>
    constructor <;> ring

variable [IsStrictOrderedRing K]

theorem Scalar.abs_eq (a : K) : Scalar.abs a = |a| := by
  rw [Scalar.abs, Scalar.zero_eq]
  by_cases h : a < 0
  · rw [if_pos h, abs_of_neg h]
  · rw [if_neg h, abs_of_nonneg (not_lt.1 h)]

namespace Side

theorem verticalBias_nonneg (kind : NodeKind) : (0 : K) ≤ verticalBias kind := by
  rw [verticalBias]
  split_ifs
  · change (0 : K) ≤ (18 : Nat) / (10 : Nat)
    positivity
  · change (0 : K) ≤ (3 : Nat) / (2 : Nat)
    positivity
  · change (0 : K) ≤ (1 : Nat)
    positivity

variable {m n : Node K}

theorem departure_of_below (hx : n.center.x = m.center.x) (hy : m.center.y ≤ n.center.y) :
    departure m n = .bottom := by
  have hflat : ¬ |n.center.y - m.center.y| * verticalBias m.kind < |n.center.x - m.center.x| := by
    rw [hx, sub_self, abs_zero, not_lt]
    exact mul_nonneg (abs_nonneg _) (verticalBias_nonneg _)
  have hdown : 0 ≤ n.center.y - m.center.y := sub_nonneg.2 hy
  rw [departure, Scalar.abs_eq, Scalar.abs_eq, Scalar.zero_eq]
  exact (if_neg hflat).trans (if_pos hdown)

theorem arrival_of_below (hx : n.center.x = m.center.x) (hy : m.center.y < n.center.y) :
    arrival m n = .top := by
  have hdown : 0 < n.center.y - m.center.y := sub_pos.2 hy
  have hsteep : ((3 : Nat) : K) / (10 : Nat) * |n.center.x - m.center.x| <
      |n.center.y - m.center.y| := by
    rw [hx, sub_self, abs_zero, mul_zero]
    exact abs_pos.2 hdown.ne'
  rw [arrival, Scalar.abs_eq, Scalar.abs_eq, Scalar.zero_eq]
  exact (if_pos hsteep).trans (if_pos hdown.le)

end Side

end Drafting
