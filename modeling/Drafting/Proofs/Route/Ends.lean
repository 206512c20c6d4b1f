import Mathlib.Tactic.SplitIfs
import Drafting.Route

namespace Drafting

namespace Path

structure Leads {α : Type} (p q : Point α) (path : List (Point α)) : Prop where
  first : path.head? = some p
  last : path.getLast? = some q

theorem Leads.unique {α : Type} {p q p' q' : Point α} {path : List (Point α)}
    (h : Leads p q path) (h' : Leads p' q' path) : p = p' ∧ q = q' :=
  ⟨Option.some_inj.1 (h.first.symm.trans h'.first), Option.some_inj.1 (h.last.symm.trans h'.last)⟩

theorem leads_straight {α : Type} (p q : Point α) : Leads p q (straight p q) := ⟨rfl, rfl⟩

section

variable {α : Type} [Scalar α] (p q : Point α)

theorem leads_elbow (bend : Bend) : Leads p q (elbow bend p q) := by
  cases bend <;> exact ⟨rfl, rfl⟩

theorem leads_stepped : Leads p q (stepped p q) := by
  rw [stepped]
  split_ifs
  · exact ⟨rfl, rfl⟩
  · exact leads_elbow p q .vertical
  · exact leads_elbow p q .horizontal

theorem two_le_length_elbow (bend : Bend) : 2 ≤ (elbow bend p q).length := by
  cases bend <;> simp [elbow]

theorem two_le_length_stepped : 2 ≤ (stepped p q).length := by
  rw [stepped]
  split_ifs
  · simp
  · exact two_le_length_elbow p q .vertical
  · exact two_le_length_elbow p q .horizontal

end

variable {α : Type} [EuclideanScalar α] {p q : Point α} {path : List (Point α)}

theorem Leads.offsetInside (h : Leads p q path) (offset : α) :
    Leads p q (Path.offsetInside offset path) := by
  fun_cases Path.offsetInside offset path with
  | case2 => exact ⟨h.first, h.last⟩
  | case4 _ a r rest _ b _ _ =>
      have hl := h.last
      rw [List.getLast?_cons_cons, List.getLast?_eq_some_getLast (List.cons_ne_nil r rest)] at hl
      exact ⟨h.first, hl⟩
  | _ => exact h

theorem two_le_length_offsetInside (h : 2 ≤ path.length) (offset : α) :
    2 ≤ (Path.offsetInside offset path).length := by
  fun_cases Path.offsetInside offset path with
  | case2 | case4 => simp
  | _ => exact h

end Path

namespace Route

open Drafting.Path

theorem leads_loop {α : Type} [Scalar α] (n : Node α) (room : α) :
    Leads (Side.right.point n) (Side.top.point n) (loop n room) := ⟨rfl, rfl⟩

theorem two_le_length_message {α : Type} [Scalar α] (s : LayoutSettings α) (l : Link α) :
    2 ≤ (message s l).length := by
  rw [message]
  split_ifs <;> simp

variable {α : Type} [EuclideanScalar α]

theorem leads_between (s : RoutingSettings α) {style : PathStyle}
    (h : style = .curved → ∀ c : Curve α, Leads c.start c.finish (c.sample 12)) (lane : Lane)
    (l : Link α) : Leads (Side.departurePoint l.source.node l.target.node)
      (Side.arrivalPoint l.source.node l.target.node) (between s style lane l).points := by
  cases style with
  | direct => exact leads_straight _ _
  | elbow bend => exact (leads_elbow _ _ bend).offsetInside _
  | stepped => exact (leads_stepped _ _).offsetInside _
  | curved =>
      have hcurve (cap : α) (p q : Point α) : Leads p q ((Path.curve p q cap).sample 12) :=
        h rfl (Path.curve p q cap)
      exact hcurve _ _ _

theorem two_le_length_between (s : RoutingSettings α) (style : PathStyle) (lane : Lane)
    (l : Link α) : 2 ≤ (between s style lane l).points.length := by
  cases style with
  | direct => exact Nat.le_refl 2
  | elbow bend => exact two_le_length_offsetInside (two_le_length_elbow _ _ bend) _
  | stepped => exact two_le_length_offsetInside (two_le_length_stepped _ _) _
  | curved => simp [between, Curve.sample]

theorem two_le_length_ofLink (s : LayoutSettings α) (kind : DiagramKind) (style : PathStyle)
    (lane : Lane) (l : Link α) : 2 ≤ (ofLink s kind style lane l).points.length := by
  rw [ofLink]
  split_ifs
  · exact two_le_length_message s l
  · simp [loop]
  · exact two_le_length_between s.routing style lane l

end Route

end Drafting
