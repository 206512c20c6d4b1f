import Drafting.Proofs.Route.Lane

namespace Drafting

namespace Path

def inner {α : Type} (path : List (Point α)) : List (Point α) := path.tail.dropLast

def IsAxial (a b : Point ℝ) : Prop := a.x = b.x ∨ a.y = b.y

def IsAcross (n a b : Point ℝ) : Prop := n.x * (b.x - a.x) + n.y * (b.y - a.y) = 0

variable {p q a b n : Point ℝ}

theorem isAcross_of_normal? (h : normal? p q = some n) : IsAcross n p q := by
  rw [normal?] at h
  split_ifs at h
  cases h
  rw [IsAcross]
  ring

theorem not_aligned (h : ¬ aligned p q) : tolerance ≤ |q.x - p.x| ∧ tolerance ≤ |q.y - p.y| := by
  simpa [aligned, Scalar.abs_eq, abs_sub_comm] using h

structure IsBent (p a b q n : Point ℝ) : Prop where
  normal : normal? a b = some n
  bend : (p.x = a.x ∧ a.y = b.y ∧ b.x = q.x ∧ n.x = 0) ∨
    (p.y = a.y ∧ a.x = b.x ∧ b.y = q.y ∧ n.y = 0)

theorem exists_isBent_elbow (hx : tolerance ≤ |q.x - p.x|) (hy : tolerance ≤ |q.y - p.y|)
    (bend : Bend) : ∃ a b n, elbow bend p q = [p, a, b, q] ∧ IsBent p a b q n := by
  cases bend with
  | vertical =>
      let y := (p.y + q.y) / 2
      have hl : tolerance ≤ length ⟨p.x, y⟩ ⟨q.x, y⟩ := by
        rw [length_eq]
        simpa [Real.sqrt_mul_self_eq_abs] using hx
      obtain ⟨n, hn⟩ := exists_normal? hl
      refine ⟨_, _, n, rfl, hn, .inl ⟨rfl, rfl, rfl, ?_⟩⟩
      rw [normal?, if_pos hl] at hn
      cases hn
      simp
  | horizontal =>
      let x := (p.x + q.x) / 2
      have hl : tolerance ≤ length ⟨x, p.y⟩ ⟨x, q.y⟩ := by
        rw [length_eq]
        simpa [Real.sqrt_mul_self_eq_abs] using hy
      obtain ⟨n, hn⟩ := exists_normal? hl
      refine ⟨_, _, n, rfl, hn, .inr ⟨rfl, rfl, rfl, ?_⟩⟩
      rw [normal?, if_pos hl] at hn
      cases hn
      simp

variable (p q) in
theorem stepped_cases : stepped p q = [p, p.midpoint q, q] ∨
    ∃ a b n, stepped p q = [p, a, b, q] ∧ IsBent p a b q n := by
  rw [stepped]
  by_cases h : aligned p q
  · exact .inl (if_pos h)
  · obtain ⟨hx, hy⟩ := not_aligned h
    rw [if_neg h]
    right
    split_ifs
    · exact exists_isBent_elbow hx hy .vertical
    · exact exists_isBent_elbow hx hy .horizontal

theorem IsBent.isChain (h : IsBent p a b q n) (o : ℝ) :
    [p, displace a n o, displace b n o, q].IsChain IsAxial := by
  simp only [List.isChain_cons_cons, IsAxial, displace]
  obtain ⟨hpa, hab, hbq, hn⟩ | ⟨hpa, hab, hbq, hn⟩ := h.bend
  · simp [hpa, hab, hbq, hn]
  · simp [hpa, hab, hbq, hn]

/-- The segment across which a stepped path gives way: its middle one, or the line between its ends
if they are level. -/
noncomputable def middleSegment (p q : Point ℝ) : Point ℝ × Point ℝ :=
  match stepped p q with
  | [_, a, b, _] => (a, b)
  | _ => (p, q)

structure IsShift (p q n : Point ℝ) : Prop where
  path : ∀ o, offsetInside o (stepped p q) =
    p :: ((inner (stepped p q)).map (displace · n o) ++ [q])
  axial : ∀ o, (stepped p q).length = 4 → (offsetInside o (stepped p q)).IsChain IsAxial
  across : IsAcross n (middleSegment p q).1 (middleSegment p q).2
  unit : 1 / 2 ≤ length p q → n.x * n.x + n.y * n.y = 1

theorem isShift_of_isBent (he : stepped p q = [p, a, b, q]) (h : IsBent p a b q n) :
    IsShift p q n := by
  have hpath (o : ℝ) : offsetInside o (stepped p q) = [p, displace a n o, displace b n o, q] := by
    rw [he]
    exact offsetInside_bent_of_normal (by rw [h.normal, Option.some_or]) o
  refine ⟨fun o => ?_, fun o _ => ?_, ?_, fun _ => unit_of_normal? h.normal⟩
  · rw [hpath, he]
    rfl
  · rw [hpath]
    exact h.isChain o
  · rw [middleSegment, he]
    exact isAcross_of_normal? h.normal

/-- Ends that are too close to have a direction keep their path where it is. -/
theorem exists_isShift_of_level (he : stepped p q = [p, p.midpoint q, q]) : ∃ n, IsShift p q n := by
  have hgate : middleSegment p q = (p, q) := by rw [middleSegment, he]
  have hbent : (stepped p q).length ≠ 4 := by simp [he]
  by_cases hl : tolerance ≤ length p q
  · obtain ⟨n, hn⟩ := exists_normal? hl
    refine ⟨n, fun o => ?_, fun o h => absurd h hbent, ?_, fun _ => unit_of_normal? hn⟩
    · rw [he, offsetInside_level_of_normal hn]
      rfl
    · rw [hgate]
      exact isAcross_of_normal? hn
  · have hstill (o : ℝ) : offsetInside o [p, p.midpoint q, q] = [p, p.midpoint q, q] := by
      by_cases ho : o = 0
      · rw [ho, offsetInside_zero]
      · rw [offsetInside_level p q _ ho, (normal?_eq_none p q).2 (not_le.1 hl)]
    refine ⟨⟨0, 0⟩, fun o => ?_, fun o h => absurd h hbent, ?_, fun h => ?_⟩
    · rw [he, hstill]
      simp [inner, displace]
    · simp [IsAcross]
    · rw [tolerance_eq] at hl
      exact absurd h hl

variable (p q) in
theorem exists_isShift : ∃ n, IsShift p q n := by
  obtain he | ⟨a, b, n, he, h⟩ := stepped_cases p q
  · exact exists_isShift_of_level he
  · exact ⟨n, isShift_of_isBent he h⟩

variable (p q) in
theorem length_stepped : (stepped p q).length = 3 ∨ (stepped p q).length = 4 := by
  obtain he | ⟨a, b, n, he, -⟩ := stepped_cases p q
  · simp [he]
  · simp [he]

theorem IsShift.inner_eq (h : IsShift p q n) (o : ℝ) :
    inner (offsetInside o (stepped p q)) = (inner (stepped p q)).map (displace · n o) := by
  rw [h.path, inner, List.tail_cons, List.dropLast_concat]

theorem IsShift.length_eq (h : IsShift p q n) (o : ℝ) :
    (offsetInside o (stepped p q)).length = (stepped p q).length := by
  have hl : 2 ≤ (stepped p q).length := two_le_length_stepped p q
  rw [h.path]
  simp only [inner, List.length_cons, List.length_append, List.length_map, List.length_dropLast,
    List.length_tail, List.length_nil]
  omega

theorem midpoint_displace (a n : Point ℝ) (o : ℝ) :
    (displace a n o).midpoint (displace a n (-o)) = a := by
  have hhalf (x y : ℝ) : (x + y * o + (x + y * -o)) / 2 = x := by ring
  simp only [Point.midpoint, displace, Scalar.two_eq, hhalf]

/-- A stepped path has three or four points, begins and ends where it should, and if it has four it
runs level and upright only. It gives way straight across a segment, to one side or the other, and
halfway between it and the path in the lane counted from the other end lies the path that does not
give way. -/
theorem parallel_mirrored (p q : Point ℝ) {index total : Nat} (h : index < total)
    (spacing : ℝ) :
    let path := parallel p q index total spacing
    let mirror := parallel p q (total - 1 - index) total spacing
    let offset : ℝ := spacing * (index - (total - 1) / 2)
    (path.length = 3 ∨ path.length = 4) ∧ Leads p q path ∧
      (path.length = 4 → path.IsChain IsAxial) ∧
      mirror.length = path.length ∧ (stepped p q).length = path.length ∧
      List.zipWith Point.midpoint (inner path) (inner mirror) = inner (stepped p q) ∧
      ∃ n, IsAcross n (middleSegment p q).1 (middleSegment p q).2 ∧
        (1 / 2 ≤ length p q → n.x * n.x + n.y * n.y = 1) ∧
        inner path = (inner (stepped p q)).map (displace · n offset) ∧
        inner mirror = (inner (stepped p q)).map (displace · n (-offset)) := by
  intro path mirror offset
  obtain ⟨n, hn⟩ := exists_isShift p q
  have hoffset : laneOffset index total spacing = offset := Route.laneOffset_of_lt h spacing
  have hpath : path = offsetInside offset (stepped p q) := by
    rw [← hoffset]
    rfl
  have hmirror : mirror = offsetInside (-offset) (stepped p q) := by
    have hlane : (⟨index, total⟩ : Route.Lane).index < (⟨index, total⟩ : Route.Lane).total := h
    rw [← hoffset, ← laneOffset_mirror hlane spacing, Route.Lane.mirror, Nat.add_comm,
      ← Nat.sub_sub]
    rfl
  rw [hpath, hmirror, hn.length_eq, hn.length_eq, hn.inner_eq, hn.inner_eq]
  refine ⟨length_stepped p q, (leads_stepped p q).offsetInside _, hn.axial _, rfl, rfl, ?_, n,
    hn.across, hn.unit, rfl, rfl⟩
  rw [List.zipWith_map, List.zipWith_self]
  simp only [midpoint_displace, List.map_id']

theorem stepped_descent : stepped (⟨0, 0⟩ : Point ℝ) ⟨40, 200⟩ =
    [⟨0, 0⟩, ⟨0, 100⟩, ⟨40, 100⟩, ⟨40, 200⟩] := by
  have hlevel : ¬ aligned (⟨0, 0⟩ : Point ℝ) ⟨40, 200⟩ := by
    norm_num [aligned, Scalar.abs_eq, tolerance_eq]
  have hsteep : Scalar.abs ((40 : ℝ) - 0) < Scalar.abs ((200 : ℝ) - 0) := by
    norm_num [Scalar.abs_eq]
  rw [stepped, if_neg hlevel, if_pos hsteep, elbow]
  norm_num [Scalar.two_eq]

theorem offsetInside_descent (o : ℝ) : offsetInside o (stepped (⟨0, 0⟩ : Point ℝ) ⟨40, 200⟩) =
    [⟨0, 0⟩, ⟨0, 100 + o⟩, ⟨40, 100 + o⟩, ⟨40, 200⟩] := by
  have hl : length (⟨0, 100⟩ : Point ℝ) ⟨40, 100⟩ = 40 := by
    have hsquare : ((40 : ℝ) - 0) * (40 - 0) + (100 - 100) * (100 - 100) = 40 * 40 := by norm_num
    rw [length_eq, hsquare]
    exact Real.sqrt_mul_self (by norm_num)
  have hn : normal? (⟨0, 100⟩ : Point ℝ) ⟨40, 100⟩ = some ⟨0, 1⟩ := by
    rw [normal?, if_pos (by rw [hl, tolerance_eq]; norm_num), hl]
    norm_num
  rw [stepped_descent, offsetInside_bent_of_normal (by rw [hn, Option.some_or])]
  simp [displace]

/-- Two edges that lead down make their way across above and below the middle. -/
theorem descending_parallel_mirrored :
    let path := parallel (⟨0, 0⟩ : Point ℝ) ⟨40, 200⟩ 0 2 16
    let mirror := parallel (⟨0, 0⟩ : Point ℝ) ⟨40, 200⟩ 1 2 16
    0 < 2 ∧ path = [⟨0, 0⟩, ⟨0, 92⟩, ⟨40, 92⟩, ⟨40, 200⟩] ∧
      mirror = [⟨0, 0⟩, ⟨0, 108⟩, ⟨40, 108⟩, ⟨40, 200⟩] ∧ path.IsChain IsAxial ∧
      List.zipWith Point.midpoint (inner path) (inner mirror) = [⟨0, 100⟩, ⟨40, 100⟩] := by
  intro path mirror
  have hlane (k : Nat) (o : ℝ) (ho : laneOffset k 2 16 = o) :
      parallel (⟨0, 0⟩ : Point ℝ) ⟨40, 200⟩ k 2 16 =
        [⟨0, 0⟩, ⟨0, 100 + o⟩, ⟨40, 100 + o⟩, ⟨40, 200⟩] := by
    rw [parallel, ho, offsetInside_descent]
  have hpath : path = [⟨0, 0⟩, ⟨0, 92⟩, ⟨40, 92⟩, ⟨40, 200⟩] := by
    rw [show path = _ from hlane 0 (-8) (by norm_num [laneOffset_eq])]
    norm_num
  have hmirror : mirror = [⟨0, 0⟩, ⟨0, 108⟩, ⟨40, 108⟩, ⟨40, 200⟩] := by
    rw [show mirror = _ from hlane 1 8 (by norm_num [laneOffset_eq])]
    norm_num
  obtain ⟨-, -, haxial, -, -, hmiddle, -⟩ :=
    parallel_mirrored (⟨0, 0⟩ : Point ℝ) ⟨40, 200⟩ (show 0 < 2 by decide) 16
  rw [stepped_descent] at hmiddle
  exact ⟨by decide, hpath, hmirror, haxial (congrArg List.length hpath), hmiddle⟩

end Path

end Drafting
