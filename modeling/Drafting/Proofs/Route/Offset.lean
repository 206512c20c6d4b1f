import Mathlib.Algebra.Order.Archimedean.Real.Basic
import Mathlib.Analysis.Real.Sqrt
import Mathlib.Tactic.LinearCombination
import Drafting.Proofs.Exact
import Drafting.Proofs.Route.Rename

namespace Drafting

noncomputable instance Scalar.ofReal : EuclideanScalar ℝ where
  toScalar := Scalar.ofField
  sqrt := Real.sqrt

namespace Path

theorem tolerance_eq : (tolerance : ℝ) = 1 / 2 := by
  change ((1 : Nat) : ℝ) / ((2 : Nat) : ℝ) = 1 / 2
  rw [Nat.cast_one, Nat.cast_ofNat]

theorem curveTolerance_eq : (curveTolerance : ℝ) = 1 / 8388608 := by
  change ((1 : Nat) : ℝ) / ((8388608 : Nat) : ℝ) = 1 / 8388608
  rw [Nat.cast_one, Nat.cast_ofNat]

theorem laneOffset_eq (index total : Nat) (spacing : ℝ) :
    laneOffset index total spacing =
      if total < 2 then 0 else spacing * (index - (total - 1) / 2) := by
  change (if total < 2 then ((0 : Nat) : ℝ)
    else spacing * (index - (total - ((1 : Nat) : ℝ)) / ((2 : Nat) : ℝ))) = _
  rw [Nat.cast_zero, Nat.cast_one, Nat.cast_ofNat]

theorem laneOffset_mirror {lane : Route.Lane} (h : lane.index < lane.total) (spacing : ℝ) :
    laneOffset lane.mirror.index lane.mirror.total spacing =
      -laneOffset lane.index lane.total spacing := by
  have hsub : ((lane.total - (lane.index + 1) : Nat) : ℝ) = lane.total - (lane.index + 1) := by
    rw [Nat.cast_sub h, Nat.cast_succ]
  rw [laneOffset_eq, laneOffset_eq, Route.Lane.mirror]
  dsimp only
  by_cases ht : lane.total < 2
  · rw [if_pos ht, if_pos ht, neg_zero]
  · rw [if_neg ht, if_neg ht, hsub]
    ring

section

variable (p q a b : Point ℝ) {n : Point ℝ}

theorem length_eq :
    length p q = √((q.x - p.x) * (q.x - p.x) + (q.y - p.y) * (q.y - p.y)) := rfl

theorem length_mul_self :
    length p q * length p q = (q.x - p.x) * (q.x - p.x) + (q.y - p.y) * (q.y - p.y) := by
  rw [length_eq]
  exact Real.mul_self_sqrt (add_nonneg (mul_self_nonneg _) (mul_self_nonneg _))

theorem abs_sub_le_length : |q.y - p.y| ≤ length p q := by
  refine Real.abs_le_sqrt ?_
  nlinarith [mul_self_nonneg (q.x - p.x)]

theorem length_elbow_le (bend : Bend) :
    ∃ a b, elbow bend p q = [p, a, b, q] ∧ length a b ≤ length p q := by
  cases bend with
  | vertical =>
      refine ⟨_, _, rfl, Real.sqrt_le_sqrt ?_⟩
      dsimp only
      nlinarith [mul_self_nonneg (q.y - p.y)]
  | horizontal =>
      refine ⟨_, _, rfl, Real.sqrt_le_sqrt ?_⟩
      dsimp only
      nlinarith [mul_self_nonneg (q.x - p.x)]

theorem normal?_eq_none : normal? p q = none ↔ length p q < tolerance := by
  rw [normal?, ← not_le]
  by_cases h : (tolerance : ℝ) ≤ length p q
  · simp [h]
  · simp [h]

variable {p q}

theorem unit_of_normal? (h : normal? p q = some n) : n.x * n.x + n.y * n.y = 1 := by
  have hl : (tolerance : ℝ) ≤ length p q := by
    rw [← not_lt, ← normal?_eq_none, h]
    exact Option.some_ne_none n
  have hpos : length p q ≠ 0 := by
    rw [tolerance_eq] at hl
    linarith
  have hm := length_mul_self p q
  rw [normal?, if_pos hl] at h
  cases h
  dsimp only
  field_simp
  linarith

theorem displace_inj (hn : n.x * n.x + n.y * n.y = 1) {o o' : ℝ} :
    displace a n o = displace a n o' ↔ o = o' := by
  constructor
  · intro h
    have hx : a.x + n.x * o = a.x + n.x * o' := congrArg Point.x h
    have hy : a.y + n.y * o = a.y + n.y * o' := congrArg Point.y h
    linear_combination (o' - o) * hn + n.x * hx + n.y * hy
  · rintro rfl
    rfl

theorem displace_neg (hn : n.x * n.x + n.y * n.y = 1) (o : ℝ) :
    displace a n (-o) = displace a n o ↔ o = 0 :=
  (displace_inj a hn).trans neg_eq_self

theorem displace_zero (n : Point ℝ) : displace a n 0 = a := by
  simp [displace]

variable (p q)

theorem level_iff (o : ℝ) : (o ≤ ((0 : Nat) : ℝ) ∧ ((0 : Nat) : ℝ) ≤ o) ↔ o = 0 := by
  rw [Nat.cast_zero]
  exact le_antisymm_iff.symm

variable {o : ℝ}

theorem offsetInside_bent (ho : o ≠ 0) :
    offsetInside o [p, a, b, q] = match (normal? a b).or (normal? p q) with
      | some n => [p, displace a n o, displace b n o, q]
      | none => [p, a, b, q] := by
  rw [offsetInside, if_neg]
  · cases (normal? a b).or (normal? p q) <;> rfl
  · exact mt (level_iff o).1 ho

theorem offsetInside_level (r : Point ℝ) (ho : o ≠ 0) :
    offsetInside o [p, r, q] = match normal? p q with
      | some n => [p, displace (p.midpoint q) n o, q]
      | none => [p, r, q] := by
  rw [offsetInside, if_neg]
  · dsimp only [List.getLast]
    cases normal? p q <;> rfl
  · exact mt (level_iff o).1 ho
  · simp

theorem offsetInside_zero (path : List (Point ℝ)) : offsetInside 0 path = path := by
  unfold offsetInside
  exact if_pos ((level_iff 0).2 rfl)

variable {p q a b}

theorem offsetInside_bent_of_normal (h : (normal? a b).or (normal? p q) = some n) (o : ℝ) :
    offsetInside o [p, a, b, q] = [p, displace a n o, displace b n o, q] := by
  by_cases ho : o = 0
  · rw [ho, offsetInside_zero, displace_zero, displace_zero]
  · rw [offsetInside_bent p q a b ho, h]

theorem offsetInside_level_of_normal (h : normal? p q = some n) (o : ℝ) :
    offsetInside o [p, p.midpoint q, q] = [p, displace (p.midpoint q) n o, q] := by
  by_cases ho : o = 0
  · rw [ho, offsetInside_zero, displace_zero]
  · rw [offsetInside_level p q _ ho, h]

theorem exists_normal? (h : tolerance ≤ length p q) : ∃ n, normal? p q = some n := ⟨_, if_pos h⟩

theorem exists_normal_of_bent (h : tolerance ≤ length p q) (a b : Point ℝ) :
    ∃ n, (normal? a b).or (normal? p q) = some n ∧ n.x * n.x + n.y * n.y = 1 := by
  obtain ⟨n, hn⟩ := exists_normal? h
  cases hab : normal? a b with
  | none => exact ⟨n, hn, unit_of_normal? hn⟩
  | some m => exact ⟨m, rfl, unit_of_normal? hab⟩

/-- Paths that give way differently are different. -/
theorem injective_offsetInside_elbow (h : tolerance ≤ length p q) (bend : Bend) :
    Function.Injective fun o => offsetInside o (elbow bend p q) := by
  intro o o' he
  obtain ⟨a, b, hpath, -⟩ := length_elbow_le p q bend
  obtain ⟨n, hn, hunit⟩ := exists_normal_of_bent h a b
  dsimp only at he
  rw [hpath, offsetInside_bent_of_normal hn, offsetInside_bent_of_normal hn] at he
  injection he with _ he
  injection he with ha _
  exact (displace_inj a hunit).1 ha

theorem injective_offsetInside_stepped (h : tolerance ≤ length p q) :
    Function.Injective fun o => offsetInside o (stepped p q) := by
  rw [stepped]
  split_ifs
  · intro o o' he
    obtain ⟨n, hn⟩ := exists_normal? h
    dsimp only at he
    rw [offsetInside_level_of_normal hn, offsetInside_level_of_normal hn] at he
    injection he with _ he
    injection he with hm _
    exact (displace_inj _ (unit_of_normal? hn)).1 hm
  · exact injective_offsetInside_elbow h .vertical
  · exact injective_offsetInside_elbow h .horizontal

variable (p q a b)

theorem offsetInside_neg_bent (ho : o ≠ 0) :
    offsetInside (-o) [p, a, b, q] = offsetInside o [p, a, b, q] ↔
      (normal? a b).or (normal? p q) = none := by
  rw [offsetInside_bent p q a b ho, offsetInside_bent p q a b (neg_ne_zero.2 ho)]
  cases hn : (normal? a b).or (normal? p q) with
  | none => simp
  | some n =>
      have hunit : n.x * n.x + n.y * n.y = 1 := by
        rcases Option.or_eq_some_iff.1 hn with h | ⟨_, h⟩
        · exact unit_of_normal? h
        · exact unit_of_normal? h
      simp [displace_neg _ hunit, ho]

theorem offsetInside_neg_level (r : Point ℝ) (ho : o ≠ 0) :
    offsetInside (-o) [p, r, q] = offsetInside o [p, r, q] ↔ normal? p q = none := by
  rw [offsetInside_level p q r ho, offsetInside_level p q r (neg_ne_zero.2 ho)]
  cases hn : normal? p q with
  | none => simp
  | some n => simp [displace_neg _ (unit_of_normal? hn), ho]

theorem offsetInside_neg_elbow (bend : Bend) (ho : o ≠ 0) :
    offsetInside (-o) (elbow bend p q) = offsetInside o (elbow bend p q) ↔
      length p q < tolerance := by
  obtain ⟨a, b, he, hl⟩ := length_elbow_le p q bend
  rw [he, offsetInside_neg_bent p q a b ho, Option.or_eq_none_iff, normal?_eq_none, normal?_eq_none]
  exact and_iff_right_of_imp hl.trans_lt

theorem offsetInside_neg_stepped (ho : o ≠ 0) :
    offsetInside (-o) (stepped p q) = offsetInside o (stepped p q) ↔ length p q < tolerance := by
  rw [stepped]
  split
  · rw [offsetInside_neg_level p q _ ho, normal?_eq_none]
  · split
    · exact offsetInside_neg_elbow p q _ ho
    · exact offsetInside_neg_elbow p q _ ho

theorem min_eq_min_iff {c x y : ℝ} : min c x = min c y ↔ x = y ∨ c ≤ min x y := by
  rw [le_min_iff]
  rcases le_total c x with hx | hx <;> rcases le_total c y with hy | hy <;> grind

theorem min_add_neg (c cap : ℝ) (ho : o ≠ 0) :
    min c (cap + -o) = min c (cap + o) ↔ c ≤ cap - |o| := by
  have hne : cap + -o ≠ cap + o := by simpa [neg_eq_self] using ho
  rw [min_eq_min_iff, or_iff_right hne, le_min_iff, le_sub_comm, abs_le]
  constructor
  · rintro ⟨hl, hr⟩
    constructor <;> linarith
  · rintro ⟨hl, hr⟩
    constructor <;> linarith

theorem curve_eq (cap : ℝ) : curve p q cap =
    ⟨p, if length p q < curveTolerance then p.midpoint q
      else ⟨(p.midpoint q).x - (q.y - p.y) / length p q * min (3 / 10 * length p q) cap,
        (p.midpoint q).y + (q.x - p.x) / length p q * min (3 / 10 * length p q) cap⟩, q⟩ := by
  rw [curve, ← Scalar.least_eq_min]

theorem curve_inj {cap cap' : ℝ} :
    curve p q cap = curve p q cap' ↔ (curve p q cap).control = (curve p q cap').control :=
  ⟨congrArg Curve.control, congrArg fun c => (⟨p, c, q⟩ : Curve ℝ)⟩

variable {p q} in
/-- The control point says how far a curve bows out, if its ends are not one point. -/
theorem control_curve_eq_iff (hl : curveTolerance ≤ length p q) {cap cap' : ℝ} :
    (curve p q cap).control = (curve p q cap').control ↔
      min (3 / 10 * length p q) cap = min (3 / 10 * length p q) cap' := by
  rw [curve_eq, curve_eq]
  dsimp only
  rw [if_neg (not_lt.2 hl), if_neg (not_lt.2 hl)]
  constructor
  · intro h
    rw [curveTolerance_eq] at hl
    have hpos : length p q ≠ 0 := by linarith
    have hx := congrArg Point.x h
    have hy := congrArg Point.y h
    have hm := length_mul_self p q
    dsimp only at hx hy
    generalize min (3 / 10 * length p q) cap = b at hx hy ⊢
    generalize min (3 / 10 * length p q) cap' = c at hx hy ⊢
    field_simp at hx hy
    have hz : length p q * length p q * (b - c) = 0 := by
      rw [hm]
      linear_combination (q.x - p.x) * hy - (q.y - p.y) * hx
    exact sub_eq_zero.1 ((mul_eq_zero.1 hz).resolve_left (mul_ne_zero hpos hpos))
  · intro h
    rw [h]

theorem curve_neg (cap : ℝ) (ho : o ≠ 0) : curve p q (cap + -o) = curve p q (cap + o) ↔
    length p q < curveTolerance ∨ 3 / 10 * length p q ≤ cap - |o| := by
  rw [curve_inj]
  rcases lt_or_ge (length p q) curveTolerance with hl | hl
  · simp [curve_eq, hl]
  · rw [control_curve_eq_iff hl, min_add_neg _ cap ho, or_iff_right (not_lt.2 hl)]

end

end Path

end Drafting
