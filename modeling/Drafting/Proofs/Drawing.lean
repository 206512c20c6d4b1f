import Mathlib.Data.Rat.Floor
import Drafting.Proofs.Layout.Conversation
import Drafting.Proofs.Stroke

namespace Drafting

variable {K : Type} [Field K] [LinearOrder K] [FloorSemiring K]

namespace Diagram.IsConversation

variable {d : Diagram K} {l : Link K}

theorem stroke_eq (h : d.IsConversation) (root : K → K) (s : LayoutSettings K) (style : PathStyle)
    (hl : l ∈ d.links) :
    Stroke.ofEdge (d.exactRoutes root s style) l.edge = ⟨l.edge, Route.message s l, none⟩ := by
  obtain ⟨hr, hid⟩ := (h.mem_exactRoutes_iff root s style hl).2 rfl
  let := Scalar.withRoot root
  exact Stroke.ofEdge_eq (nodup_edge_routes h.named) hr hid

theorem strokes_eq (h : d.IsConversation) (root : K → K) (s : LayoutSettings K) (style : PathStyle)
    (padding : K) :
    (Drawing.ofDiagram d (d.exactRoutes root s style) padding).strokes =
      d.links.map fun l => ⟨l.edge, Route.message s l, none⟩ := by
  change d.connected.map _ = _
  rw [Diagram.connected, List.map_map]
  exact List.map_congr_left fun l hl => h.stroke_eq root s style hl

end Diagram.IsConversation

def Diagram.exactDrawing (root : K → K) (s : LayoutSettings K) (style : PathStyle)
    (d : Diagram K) : Drawing K :=
  .ofDiagram (d.layout s) ((d.layout s).exactRoutes root s style) s.padding

/-- A drawing is as high as its actors with the padding above and below them. It is wide enough for
every message, and high enough for those that come to lie within the padding. -/
theorem Source.sequence_drawing_height [IsStrictOrderedRing K] (text : List Char)
    (ids rest : IdSupply) (d : Diagram K) (hd : parseWith .sequence text ids = .ok (d, rest))
    (root : K → K) (style : PathStyle) (s : LayoutSettings K) (hpadding : 0 ≤ s.padding)
    (hheader : 0 ≤ s.sequence.headerHeight) (hstep : 0 ≤ s.sequence.pixelsPerMessage) :
    (d.exactDrawing root s style).height = 50 + 2 * s.padding ∧
      (d.exactDrawing root s style).strokes.map Stroke.edge = d.edges ∧
      ∀ stroke ∈ (d.exactDrawing root s style).strokes,
        (∀ q ∈ stroke.points, 0 ≤ q.x ∧ q.x ≤ (d.exactDrawing root s style).width ∧ 0 ≤ q.y) ∧
        ((∀ q ∈ stroke.points, q.y ≤ (d.exactDrawing root s style).height) ↔
          ∃ row, stroke.edge.order = some row ∧
            s.sequence.headerHeight + row * s.sequence.pixelsPerMessage +
              Route.loopDepth s stroke.edge ≤ 50 + s.padding) := by
  have h := (isConversation_of_parseWith hd).layout s
  obtain ⟨width, he⟩ := (isConversation_of_parseWith hd).exists_extent_layout s
  have hheight : (d.exactDrawing root s style).height = 50 + 2 * s.padding := by
    rw [Diagram.exactDrawing, Drawing.ofDiagram, he]
    change s.padding + 50 + s.padding = _
    linarith
  have hwidth : (d.exactDrawing root s style).width = s.padding + width + s.padding := by
    rw [Diagram.exactDrawing, Drawing.ofDiagram, he]
    rfl
  have hstrokes := h.strokes_eq root s style s.padding
  refine ⟨hheight, ?_, ?_⟩
  · rw [Diagram.exactDrawing, hstrokes, List.map_map]
    exact h.connected_eq
  rw [Diagram.exactDrawing, hstrokes, ← Diagram.exactDrawing, hheight, hwidth]
  simp only [List.forall_mem_map]
  intro l hl
  have htop := Route.isLeast_message hstep l
  have hlow := Route.isGreatest_message hstep l
  have hrow : 0 ≤ (l.position : K) * s.sequence.pixelsPerMessage :=
    mul_nonneg (Nat.cast_nonneg _) hstep
  rw [h.rowAt_eq hl, Layout.Conversation.messageY] at htop hlow
  constructor
  · intro q hq
    have hy := htop.2 ⟨q, hq, rfl⟩
    obtain ⟨hleft, hright⟩ := h.x_message he hl q hq
    change s.padding ≤ q.x at hleft
    change q.x ≤ s.padding + width at hright
    exact ⟨by linarith, by linarith, by linarith⟩
  · have hreach : (∀ q ∈ Route.message s l, q.y ≤ 50 + 2 * s.padding) ↔ _ :=
      Set.forall_mem_image.symm.trans (isLUB_le_iff hlow.isLUB).symm
    rw [hreach, h.order_eq hl]
    simp only [Option.some_inj, exists_eq_left']
    constructor <;> intro hle <;> linarith

def Source.twoMessages : List Char := "A -> B: one\nA -> B: two".toList

theorem Source.twoMessages_drawing_height :
    ∃ (d : Diagram ℚ) (rest : IdSupply), parseWith .sequence twoMessages .fresh = .ok (d, rest) ∧
      d.edges.length = 2 ∧ (d.exactDrawing id .standard .direct).height = 130 ∧
      ∀ stroke ∈ (d.exactDrawing id .standard .direct).strokes,
        (∀ q ∈ stroke.points, q.y ≤ (d.exactDrawing id .standard .direct).height) ↔
          ∃ row, stroke.edge.order = some row ∧
            (80 : ℚ) + row * 50 + Route.loopDepth .standard stroke.edge ≤ 90 := by
  refine ⟨_, _, rfl, rfl, ?_⟩
  obtain ⟨hheight, -, hstrokes⟩ := sequence_drawing_height (K := ℚ) twoMessages .fresh _ _
    rfl id .direct .standard (by decide) (by decide) (by decide)
  have hfits : (50 : ℚ) + LayoutSettings.standard.padding = 90 := by decide +kernel
  simp only [hfits] at hstrokes
  exact ⟨hheight.trans (by decide +kernel), fun stroke hs => (hstrokes stroke hs).2⟩

/-- Not every message lies within the drawing: the second one comes below its lower edge. -/
theorem Source.twoMessages_not_within_drawing : ¬ ∀ (d : Diagram ℚ) (rest : IdSupply),
    parseWith .sequence twoMessages .fresh = .ok (d, rest) →
      ∀ stroke ∈ (d.exactDrawing id .standard .direct).strokes, ∀ q ∈ stroke.points,
        (0 ≤ q.x ∧ q.x ≤ (d.exactDrawing id .standard .direct).width) ∧
          0 ≤ q.y ∧ q.y ≤ (d.exactDrawing id .standard .direct).height := by
  intro h
  have hlow := h _ _ rfl
  revert hlow
  decide +kernel

end Drafting
