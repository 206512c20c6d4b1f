import Mathlib.Data.Rat.Floor
import Drafting.Proofs.Geometry
import Drafting.Proofs.Layout.Cover
import Drafting.Proofs.Layout.Settled
import Drafting.Proofs.Layout.Stable

namespace Drafting

open Scalar

variable {K : Type} [Field K] [LinearOrder K] [FloorSemiring K]

namespace Node

theorem box_placeCorner (n : Node K) (left top : K) :
    (n.placeCorner left top).box = ⟨left, top, n.width, n.height⟩ := by
  rw [placeCorner, box]
  by_cases h : n.kind.isCentered
  · rw [if_pos h, if_pos h]
    exact congrArg₂ (Rect.mk · · n.width n.height) (add_sub_cancel_right left _)
      (add_sub_cancel_right top _)
  · rw [if_neg h, if_neg h]

theorem box_placeCenter (n : Node K) (x y : K) :
    (n.placeCenter x y).box = ⟨x - n.width / 2, y - n.height / 2, n.width, n.height⟩ :=
  n.box_placeCorner _ _

theorem width_box (n : Node K) : n.box.width = n.width := by
  rw [box]
  split <;> rfl

theorem height_box (n : Node K) : n.box.height = n.height := by
  rw [box]
  split <;> rfl

def shift (dx dy : K) (n : Node K) : Node K := { n with x := n.x + dx, y := n.y + dy }

theorem box_shift (dx dy : K) (n : Node K) : (n.shift dx dy).box = n.box.shift dx dy := by
  rw [box, box, shift]
  split
  · exact congrArg₂ (Rect.mk · · n.width n.height) (add_sub_right_comm _ _ _)
      (add_sub_right_comm _ _ _)
  · rfl

theorem shift_zero_left (dy : K) (n : Node K) : { n with y := n.y + dy } = n.shift 0 dy := by
  rw [shift, add_zero]

theorem shift_zero_right (dx : K) (n : Node K) : { n with x := n.x + dx } = n.shift dx 0 := by
  rw [shift, add_zero]

theorem extent_map_shift [IsOrderedAddMonoid K] (nodes : List (Node K)) (dx dy : K) :
    extent (nodes.map (shift dx dy)) = (extent nodes).map (Rect.shift · dx dy) := by
  rw [extent, extent, ← Rect.enclosing?_map_shift, List.map_map, List.map_map]
  exact congrArg Rect.enclosing? (List.map_congr_left fun n _ => n.box_shift dx dy)

end Node

namespace Layout

theorem normalize_eq {padding : K} {nodes : List (Node K)} {r : Rect K}
    (h : Node.extent nodes = some r) :
    normalize padding nodes = nodes.map (Node.shift (padding - r.x) (padding - r.y)) := by
  rw [normalize, h]
  dsimp only
  rw [zero_eq]
  split
  next hd =>
    obtain ⟨hx, hy⟩ := hd
    have hid : Node.shift (padding - r.x) (padding - r.y) = id := by
      funext n
      rw [le_antisymm hx.1 hx.2, le_antisymm hy.1 hy.2, Node.shift, add_zero, add_zero]
      rfl
    rw [hid, List.map_id]
  next => rfl

theorem extent_normalize [IsOrderedAddMonoid K] {padding : K} {nodes : List (Node K)} {r : Rect K}
    (h : Node.extent nodes = some r) :
    Node.extent (normalize padding nodes) = some ⟨padding, padding, r.width, r.height⟩ := by
  rw [normalize_eq h, Node.extent_map_shift, h, Option.map_some, Rect.shift, add_sub_cancel,
    add_sub_cancel]

theorem exists_normalize_eq (padding : K) (nodes : List (Node K)) :
    ∃ dx dy, normalize padding nodes = nodes.map (Node.shift dx dy) := by
  cases h : Node.extent nodes with
  | none =>
      rw [Page.extent_eq_none.1 h]
      exact ⟨0, 0, rfl⟩
  | some r => exact ⟨_, _, normalize_eq h⟩

theorem pairwise_apart_map_shift [IsOrderedAddMonoid K] (dx dy : K) {nodes : List (Node K)} :
    (nodes.map (Node.shift dx dy)).Pairwise (fun m n => m.box.Apart n.box) ↔
      nodes.Pairwise fun m n => m.box.Apart n.box := by
  simp only [List.pairwise_map, Node.box_shift, Rect.apart_shift]

theorem pairwise_apart_onNodes_shift [IsOrderedAddMonoid K] (dx dy : K) {placed : Placement K} :
    (onNodes (Node.shift dx dy) placed).Pairwise (fun p q => p.2.box.Apart q.2.box) ↔
      placed.Pairwise fun p q => p.2.box.Apart q.2.box := by
  simp only [onNodes, List.pairwise_map, Node.box_shift, Rect.apart_shift]

theorem pairwise_apart_of_perm {nodes others : List (Node K)} (hp : nodes.Perm others)
    (h : nodes.Pairwise fun m n => m.box.Apart n.box) :
    others.Pairwise fun m n => m.box.Apart n.box :=
  h.perm hp Rect.Apart.symm

end Layout

namespace Diagram

theorem holds_box {d : Diagram K} {r : Rect K} (h : d.extent = some r) {n : Node K}
    (hn : n ∈ d.nodes) : r.Holds n.box :=
  (Rect.isHull_of_enclosing? h).mem (List.mem_map_of_mem hn)

theorem length_layout (s : LayoutSettings K) (d : Diagram K) :
    (d.layout s).nodes.length = d.nodes.length := by
  have h := congrArg (fun e => e.nodes.length) (unplaced_layout s d)
  simpa [unplaced, sized] using h

def Sized (d : Diagram K) : Prop := ∀ n ∈ d.nodes, 0 < n.width ∧ 0 < n.height

instance (d : Diagram K) : Decidable d.Sized :=
  inferInstanceAs (Decidable (∀ n ∈ d.nodes, 0 < n.width ∧ 0 < n.height))

namespace Sized

variable {d : Diagram K}

theorem sized_eq (h : d.Sized) : d.sized = d := by
  have hsize : ∀ n ∈ d.nodes, Layout.ensureSize n = n := by
    intro n hn
    obtain ⟨hw, hh⟩ := h n hn
    rw [← zero_eq] at hw hh
    exact congrArg₂ (Node.mk n.id n.kind n.x n.y · · n.label n.data) (if_pos hw) (if_pos hh)
  rw [sized, List.map_congr_left hsize, List.map_id']

theorem nodes_layout (h : d.Sized) (s : LayoutSettings K) :
    (d.layout s).nodes = Layout.place s d :=
  congrArg (Layout.place s) h.sized_eq

theorem unplaced_layout (h : d.Sized) (s : LayoutSettings K) :
    (d.layout s).unplaced = d.unplaced := by
  rw [Diagram.unplaced_layout, h.sized_eq]

theorem map_unplaced_layout (h : d.Sized) (s : LayoutSettings K) :
    (d.layout s).nodes.map Node.unplaced = d.nodes.map Node.unplaced :=
  congrArg Diagram.nodes (h.unplaced_layout s)

theorem layout (h : d.Sized) (s : LayoutSettings K) : (d.layout s).Sized := by
  intro n hn
  have hm : n.unplaced ∈ (d.layout s).nodes.map Node.unplaced := List.mem_map_of_mem hn
  rw [h.map_unplaced_layout] at hm
  obtain ⟨m, hm, he⟩ := List.mem_map.1 hm
  have hsize : 0 < m.unplaced.width ∧ 0 < m.unplaced.height := h m hm
  rwa [he] at hsize

end Sized

end Diagram

def LayoutSettings.dense : LayoutSettings ℚ where
  padding := -1000
  hierarchy := ⟨-5, -7, 0, 1 / 2⟩
  flow := ⟨0, 1 / 2, 700⟩
  mindmap := ⟨40, -10⟩
  sequence := ⟨0, 0, 0⟩
  useCase := ⟨0, 1 / 2⟩
  routing := ⟨0, 0⟩

end Drafting
