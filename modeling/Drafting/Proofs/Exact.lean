import Mathlib.Algebra.BigOperators.Group.List.Basic
import Mathlib.Algebra.Order.Field.Basic
import Mathlib.Algebra.Order.Floor.Semiring
import Drafting.Scalar

namespace Drafting.Scalar

variable {K : Type} [Field K] [LinearOrder K] [FloorSemiring K]

/-- An ordered field computes exactly, and its own order is the order in which it is sorted. -/
instance (priority := low) ofField : Scalar K where
  decidableLT := inferInstance
  decidableLE := inferInstance
  ranks a b := decide (a ≤ b)
  bottom := none
  floorNat := Nat.floor
  ceilNat := Nat.ceil

/-- The numerals of scalars are those of the field. -/
theorem zero_eq : (instOfNat 0 : OfNat K 0).ofNat = 0 := Nat.cast_zero

theorem one_eq : (instOfNat 1 : OfNat K 1).ofNat = 1 := Nat.cast_one

theorem two_eq : (instOfNat 2 : OfNat K 2).ofNat = 2 := Nat.cast_ofNat

theorem least_eq_min (a b : K) : least a b = min a b := by
  rw [least]
  by_cases h : b < a
  · rw [if_pos (.inl h), min_eq_right h.le]
  · rw [if_neg (by simp [h]), min_eq_left (not_lt.1 h)]

theorem greatest_eq_max (a b : K) : greatest a b = max a b := by
  rw [greatest]
  by_cases h : a < b
  · rw [if_pos (.inl h), max_eq_right h.le]
  · rw [if_neg (by simp [h]), max_eq_left (not_lt.1 h)]

theorem le_clamp {low high : K} (h : low ≤ high) (a : K) : low ≤ clamp low high a := by
  rw [clamp]
  split_ifs with hl hh
  · exact le_rfl
  · exact h
  · exact not_lt.1 hl

theorem le_foldl_greatest (as : List K) (b : K) :
    b ≤ as.foldl greatest b ∧ ∀ a ∈ as, a ≤ as.foldl greatest b := by
  induction as generalizing b with
  | nil => simp
  | cons a as ih =>
      obtain ⟨hb, has⟩ := ih (greatest b a)
      rw [List.foldl_cons, List.forall_mem_cons]
      rw [greatest_eq_max] at hb has ⊢
      exact ⟨(le_max_left b a).trans hb, (le_max_right b a).trans hb, has⟩

theorem le_peak {as : List K} {a : K} (h : a ∈ as) : a ≤ peak as :=
  (le_foldl_greatest as _).2 a h

theorem peak_nonneg (as : List K) : 0 ≤ peak as := by
  rw [← zero_eq]
  exact (le_foldl_greatest as _).1

theorem total_eq_sum (as : List K) : total as = as.sum := by
  cases as with
  | nil => exact zero_eq
  | cons a as =>
      rw [List.sum_eq_foldl, List.foldl_cons, zero_add]
      rfl

theorem offsets_add (a b : K) (steps : List K) :
    offsets (a + b) steps = (offsets b steps).map (a + ·) := by
  induction steps generalizing b with
  | nil => rfl
  | cons step steps ih =>
      rw [offsets, offsets, List.map_cons, ← ih, ← add_assoc]

theorem offsets_eq_map (start : K) (steps : List K) :
    offsets start steps = (offsets 0 steps).map (start + ·) := by
  rw [← offsets_add, add_zero]

end Drafting.Scalar
