import Drafting.Proofs.Layout.Rows
import Drafting.Proofs.Source.Conversation

namespace Drafting

open Layout Scalar

def Layout.Conversation.row {α : Type} [Scalar α] (s : LayoutSettings α) (d : Diagram α) :
    List (Node α) :=
  List.zipWith (fun n x => n.placeCorner x 0) d.nodes (offsets 0 (d.nodes.map (advance s.sequence)))

namespace Diagram.IsConversation

variable {K : Type} [Field K] [LinearOrder K] [FloorSemiring K] [IsStrictOrderedRing K]
  {d : Diagram K}

theorem isSized (h : d.IsConversation) : d.Sized := by
  intro n hn
  obtain ⟨hw, hh⟩ := h.sizes n hn
  constructor <;> linarith

theorem layout (h : d.IsConversation) (s : LayoutSettings K) : (d.layout s).IsConversation where
  kind := h.kind
  inhabited hn := h.inhabited (by simpa [hn] using (length_layout s d).symm)
  sizes n hn := by
    have hm : n.unplaced ∈ (d.layout s).nodes.map Node.unplaced := List.mem_map_of_mem hn
    rw [h.isSized.map_unplaced_layout] at hm
    obtain ⟨m, hm, he⟩ := List.mem_map.1 hm
    have hsize : 100 ≤ m.unplaced.width ∧ m.unplaced.height = 50 := h.sizes m hm
    rwa [he] at hsize
  named := h.named
  rows := h.rows
  joined e he := by
    rw [joins_iff, ids_layout, ← joins_iff]
    exact h.joined e he

theorem height_row (h : d.IsConversation) (s : LayoutSettings K) {r : Rect K}
    (hr : Node.extent (Conversation.row s d) = some r) : r.height = 50 := by
  have hbox : ∀ b ∈ (Conversation.row s d).map Node.box, b.y = 0 ∧ b.bottom = 50 := by
    simp only [List.forall_mem_map]
    intro n hn
    obtain ⟨m, hm, x, -, rfl⟩ := exists_of_mem_zipWith hn
    rw [Node.box_placeCorner, Rect.bottom]
    exact ⟨zero_eq, by simp [(h.sizes m hm).2, zero_eq]⟩
  have hhull := Rect.isHull_of_enclosing? hr
  obtain ⟨top, ht, hy⟩ := hhull.top.1
  obtain ⟨low, hl, hb⟩ := hhull.bottom.1
  rw [(hbox top ht).1] at hy
  rw [(hbox low hl).2, Rect.bottom, ← hy] at hb
  linarith

theorem exists_extent_layout (h : d.IsConversation) (s : LayoutSettings K) :
    ∃ width, (d.layout s).extent = some ⟨s.padding, s.padding, width, 50⟩ := by
  have hplace : (d.layout s).nodes = normalize s.padding (Conversation.row s d) := by
    rw [h.isSized.nodes_layout, place, h.kind]
    rfl
  cases hr : Node.extent (Conversation.row s d) with
  | none =>
      have hlength := congrArg List.length (Page.extent_eq_none.1 hr)
      simp [Conversation.row, h.inhabited] at hlength
  | some r =>
      refine ⟨r.width, ?_⟩
      rw [extent, hplace, extent_normalize hr, h.height_row s hr]

end Diagram.IsConversation

end Drafting
