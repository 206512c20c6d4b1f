import Mathlib.Data.List.Perm.Basic
import Mathlib.Order.Bounds.Basic
import Mathlib.Tactic.Linarith
import Drafting.Proofs.Exact
import Drafting.Geometry

namespace Drafting.Rect

variable {K : Type} [Field K] [LinearOrder K] [FloorSemiring K]

section

variable (r s t : Rect K)

theorem x_join : (r.join s).x = min r.x s.x := Scalar.least_eq_min _ _

theorem y_join : (r.join s).y = min r.y s.y := Scalar.least_eq_min _ _

theorem right_join : (r.join s).right = max r.right s.right := by
  rw [← Scalar.greatest_eq_max]
  exact add_sub_cancel _ _

theorem bottom_join : (r.join s).bottom = max r.bottom s.bottom := by
  rw [← Scalar.greatest_eq_max]
  exact add_sub_cancel _ _

variable {r s} in
theorem ext_sides (hx : r.x = s.x) (hy : r.y = s.y) (hr : r.right = s.right)
    (hb : r.bottom = s.bottom) : r = s := by
  cases r
  cases s
  simp_all [right, bottom]

theorem join_comm : r.join s = s.join r := by
  apply ext_sides
  · rw [x_join, x_join, min_comm]
  · rw [y_join, y_join, min_comm]
  · rw [right_join, right_join, max_comm]
  · rw [bottom_join, bottom_join, max_comm]

theorem join_assoc : (r.join s).join t = r.join (s.join t) := by
  apply ext_sides
  · simp only [x_join, min_assoc]
  · simp only [y_join, min_assoc]
  · simp only [right_join, max_assoc]
  · simp only [bottom_join, max_assoc]

end

theorem foldl_join (r s : Rect K) (rs : List (Rect K)) :
    rs.foldl join (r.join s) = r.join (rs.foldl join s) := by
  induction rs generalizing s with
  | nil => rfl
  | cons t rs ih => rw [List.foldl_cons, join_assoc, ih, List.foldl_cons]

theorem enclosing?_append {rs ss : List (Rect K)} {r s : Rect K} (hr : enclosing? rs = some r)
    (hs : enclosing? ss = some s) : enclosing? (rs ++ ss) = some (r.join s) := by
  cases rs with
  | nil => cases hr
  | cons a rs =>
      cases ss with
      | nil => cases hs
      | cons b ss =>
          cases hr
          cases hs
          rw [List.cons_append, enclosing?, List.foldl_append, List.foldl_cons, foldl_join]

theorem enclosing?_perm {rs ss : List (Rect K)} (h : rs.Perm ss) :
    enclosing? rs = enclosing? ss := by
  induction h with
  | nil => rfl
  | cons r h _ =>
      refine congrArg some (h.foldl_eq' (fun s _ t _ u => ?_) r)
      rw [join_assoc, join_comm s, join_assoc]
  | swap r s rs => rw [enclosing?, enclosing?, List.foldl_cons, List.foldl_cons, join_comm]
  | trans _ _ h₁ h₂ => exact h₁.trans h₂

/-- A rectangle reaches on each side just as far as the rectangles of a list. -/
structure IsHull (r : Rect K) (rs : List (Rect K)) : Prop where
  left : IsLeast (Rect.x '' {s | s ∈ rs}) r.x
  top : IsLeast (Rect.y '' {s | s ∈ rs}) r.y
  right : IsGreatest (Rect.right '' {s | s ∈ rs}) r.right
  bottom : IsGreatest (Rect.bottom '' {s | s ∈ rs}) r.bottom

theorem isHull_singleton (r : Rect K) : IsHull r [r] := by
  constructor <;> simp

theorem IsHull.join {r s : Rect K} {rs ss : List (Rect K)} (hr : IsHull r rs) (hs : IsHull s ss) :
    IsHull (r.join s) (rs ++ ss) := by
  have hu : {t | t ∈ rs ++ ss} = {t | t ∈ rs} ∪ {t | t ∈ ss} := by
    ext t
    simp
  constructor
  · rw [hu, Set.image_union, x_join]
    exact hr.left.union hs.left
  · rw [hu, Set.image_union, y_join]
    exact hr.top.union hs.top
  · rw [hu, Set.image_union, right_join]
    exact hr.right.union hs.right
  · rw [hu, Set.image_union, bottom_join]
    exact hr.bottom.union hs.bottom

theorem IsHull.foldl {r : Rect K} {rs : List (Rect K)} (h : IsHull r rs) (ss : List (Rect K)) :
    IsHull (ss.foldl Rect.join r) (rs ++ ss) := by
  induction ss generalizing r rs with
  | nil => simpa using h
  | cons s ss ih => simpa using ih (h.join (isHull_singleton s))

theorem isHull_of_enclosing? {r : Rect K} {rs : List (Rect K)} (h : enclosing? rs = some r) :
    IsHull r rs := by
  cases rs with
  | nil => cases h
  | cons s rs =>
      cases h
      exact (isHull_singleton s).foldl rs

def Holds (r s : Rect K) : Prop :=
  (r.x ≤ s.x ∧ s.right ≤ r.right) ∧ r.y ≤ s.y ∧ s.bottom ≤ r.bottom

def Contains (r : Rect K) (p : Point K) : Prop :=
  (r.x ≤ p.x ∧ p.x ≤ r.right) ∧ r.y ≤ p.y ∧ p.y ≤ r.bottom

theorem IsHull.mem {r s : Rect K} {rs : List (Rect K)} (h : IsHull r rs) (hs : s ∈ rs) :
    r.Holds s :=
  ⟨⟨h.left.2 ⟨s, hs, rfl⟩, h.right.2 ⟨s, hs, rfl⟩⟩, h.top.2 ⟨s, hs, rfl⟩, h.bottom.2 ⟨s, hs, rfl⟩⟩

def Apart (r s : Rect K) : Prop := ¬ r.overlaps s

theorem apart_iff {r s : Rect K} : r.Apart s ↔
    (r.right ≤ s.x ∨ s.right ≤ r.x) ∨ r.bottom ≤ s.y ∨ s.bottom ≤ r.y := by
  simp only [Apart, overlaps, Bool.and_eq_true, decide_eq_true_eq, ← not_lt]
  tauto

theorem Apart.symm {r s : Rect K} (h : r.Apart s) : s.Apart r := by
  rw [apart_iff] at h ⊢
  exact h.imp Or.symm Or.symm

theorem apart_of_right_le {r s : Rect K} (h : r.right ≤ s.x) : r.Apart s :=
  apart_iff.2 (.inl (.inl h))

theorem apart_of_bottom_le {r s : Rect K} (h : r.bottom ≤ s.y) : r.Apart s :=
  apart_iff.2 (.inr (.inl h))

def shift (r : Rect K) (dx dy : K) : Rect K := ⟨r.x + dx, r.y + dy, r.width, r.height⟩

section

variable (r : Rect K) (dx dy : K)

@[simp] theorem x_shift : (r.shift dx dy).x = r.x + dx := rfl

@[simp] theorem y_shift : (r.shift dx dy).y = r.y + dy := rfl

@[simp] theorem right_shift : (r.shift dx dy).right = r.right + dx := add_right_comm _ _ _

@[simp] theorem bottom_shift : (r.shift dx dy).bottom = r.bottom + dy := add_right_comm _ _ _

end

section

variable [IsOrderedAddMonoid K]

theorem join_shift (r s : Rect K) (dx dy : K) :
    (r.shift dx dy).join (s.shift dx dy) = (r.join s).shift dx dy := by
  apply ext_sides <;>
    simp [x_join, y_join, right_join, bottom_join, min_add_add_right, max_add_add_right]

theorem enclosing?_map_shift (rs : List (Rect K)) (dx dy : K) :
    enclosing? (rs.map (shift · dx dy)) = (enclosing? rs).map (shift · dx dy) := by
  cases rs with
  | nil => rfl
  | cons r rs =>
      rw [List.map_cons, enclosing?, enclosing?, List.foldl_map, Option.map_some]
      exact congrArg some (List.foldl_hom (shift · dx dy) fun s t => join_shift s t dx dy)

end

theorem apart_shift [IsOrderedAddMonoid K] {r s : Rect K} (dx dy : K) :
    (r.shift dx dy).Apart (s.shift dx dy) ↔ r.Apart s := by
  simp [apart_iff]

section

variable (r : Rect K) (margin : K)

@[simp] theorem x_inflate : (r.inflate margin).x = r.x - margin := rfl

@[simp] theorem y_inflate : (r.inflate margin).y = r.y - margin := rfl

variable [IsStrictOrderedRing K]

@[simp] theorem right_inflate : (r.inflate margin).right = r.right + margin := by
  change r.x - margin + (r.width + margin * 2) = r.x + r.width + margin
  linarith

@[simp] theorem bottom_inflate : (r.inflate margin).bottom = r.bottom + margin := by
  change r.y - margin + (r.height + margin * 2) = r.y + r.height + margin
  linarith

variable {r margin}

theorem Holds.inflate {s : Rect K} (h : r.Holds s) (hm : 0 ≤ margin) :
    (r.inflate margin).Holds s := by
  obtain ⟨⟨hl, hr⟩, ht, hb⟩ := h
  refine ⟨⟨?_, ?_⟩, ?_, ?_⟩ <;> simp <;> linarith

theorem Contains.inflate {p : Point K} (h : r.Contains p) (hm : 0 ≤ margin) :
    (r.inflate margin).Contains p := by
  obtain ⟨⟨hl, hr⟩, ht, hb⟩ := h
  refine ⟨⟨?_, ?_⟩, ?_, ?_⟩ <;> simp <;> linarith

end

end Drafting.Rect
