import Drafting.Proofs.Layout.Boxes
import Drafting.Proofs.Page.Conversation
import Drafting.Proofs.Route.Anchor
import Drafting.Proofs.Source.Conversation

namespace Drafting

open Layout.Conversation

theorem Diagram.routes_eq_map_message {α : Type} [EuclideanScalar α] (s : LayoutSettings α)
    (style : PathStyle) {d : Diagram α} (hk : d.kind = .sequence) :
    d.routes s style = d.links.map fun l => ⟨l.edge.id, Route.message s l, none⟩ := by
  refine List.ext_getElem? fun i => ?_
  rw [getElem?_routes, List.getElem?_map]
  exact Option.map_congr fun l _ => if_pos hk

variable {K : Type} [Field K] [LinearOrder K] [FloorSemiring K]

@[reducible] def Scalar.withRoot (root : K → K) : EuclideanScalar K where
  toScalar := Scalar.ofField
  sqrt := root

/-- The routes in exact arithmetic, the lengths of segments being taken with some root. -/
def Diagram.exactRoutes (root : K → K) (s : LayoutSettings K) (style : PathStyle) (d : Diagram K) :
    List (Route K) :=
  letI := Scalar.withRoot root
  d.routes s style

theorem Diagram.exactRoutes_eq_map_message (root : K → K) (s : LayoutSettings K) (style : PathStyle)
    {d : Diagram K} (hk : d.kind = .sequence) :
    d.exactRoutes root s style = d.links.map fun l => ⟨l.edge.id, Route.message s l, none⟩ :=
  letI := Scalar.withRoot root
  routes_eq_map_message s style hk

namespace Route

/-- How far below its row a message comes back to the actor that sent it. -/
def loopDepth (s : LayoutSettings K) (e : Edge) : K :=
  if e.source = e.target then s.sequence.pixelsPerMessage / 2 else 0

theorem image_y_message (s : LayoutSettings K) (l : Link K) :
    Point.y '' {p | p ∈ message s l} = {messageY s (l.edge.rowAt l.position),
      messageY s (l.edge.rowAt l.position) + loopDepth s l.edge} := by
  ext y
  rw [message, Edge.rowAt, loopDepth]
  split_ifs <;> simp [eq_comm]

variable [IsStrictOrderedRing K] {s : LayoutSettings K} {l : Link K} {header : Rect K}

theorem loopDepth_nonneg (hp : 0 ≤ s.sequence.pixelsPerMessage) (e : Edge) : 0 ≤ loopDepth s e := by
  rw [loopDepth]
  split_ifs
  · linarith
  · exact le_rfl

theorem loopDepth_le (hp : 0 ≤ s.sequence.pixelsPerMessage) (e : Edge) :
    loopDepth s e ≤ s.sequence.pixelsPerMessage := by
  rw [loopDepth]
  split_ifs <;> linarith

theorem isLeast_message (hp : 0 ≤ s.sequence.pixelsPerMessage) (l : Link K) :
    IsLeast (Point.y '' {p | p ∈ message s l}) (messageY s (l.edge.rowAt l.position)) := by
  have h := isLeast_pair (a := messageY s (l.edge.rowAt l.position))
    (b := messageY s (l.edge.rowAt l.position) + loopDepth s l.edge)
  rwa [min_eq_left (le_add_of_nonneg_right (loopDepth_nonneg hp l.edge)), ← image_y_message] at h

theorem isGreatest_message (hp : 0 ≤ s.sequence.pixelsPerMessage) (l : Link K) :
    IsGreatest (Point.y '' {p | p ∈ message s l})
      (messageY s (l.edge.rowAt l.position) + loopDepth s l.edge) := by
  have h := isGreatest_pair (a := messageY s (l.edge.rowAt l.position))
    (b := messageY s (l.edge.rowAt l.position) + loopDepth s l.edge)
  rwa [max_eq_right (le_add_of_nonneg_right (loopDepth_nonneg hp l.edge)), ← image_y_message] at h

/-- The axis of a node is well inside of whatever holds its box. -/
theorem holds_axis {n : Node K} (h : header.Holds n.box) (hw : 100 ≤ n.width) :
    header.x ≤ n.center.x ∧ n.center.x + 40 ≤ header.right := by
  obtain ⟨⟨hl, hr⟩, -⟩ := h
  have hx : n.center.x = n.box.x + n.width / 2 := by
    rw [← n.width_box]
    rfl
  rw [Rect.right, n.width_box] at hr
  constructor <;> linarith

theorem x_message (hs : header.Holds l.source.node.box) (ht : header.Holds l.target.node.box)
    (hws : 100 ≤ l.source.node.width) (hwt : 100 ≤ l.target.node.width) :
    ∀ p ∈ message s l, header.x ≤ p.x ∧ p.x ≤ header.right := by
  obtain ⟨hsl, hsr⟩ := holds_axis hs hws
  obtain ⟨htl, htr⟩ := holds_axis ht hwt
  rw [message]
  split_ifs
  · simp only [List.forall_mem_cons]
    refine ⟨?_, ?_, ?_, ?_, by simp⟩ <;> constructor <;> linarith
  · simp only [List.forall_mem_cons]
    refine ⟨?_, ?_, by simp⟩ <;> constructor <;> linarith

end Route

namespace Diagram.IsConversation

variable {K : Type} [Field K] [LinearOrder K] [FloorSemiring K] {d : Diagram K} {l : Link K}

theorem map_edge_position_links (h : d.IsConversation) :
    d.links.map (fun l => (l.edge, l.position)) = d.edges.zipIdx := by
  rw [Diagram.map_edge_position_links, List.filter_eq_self]
  exact fun p hp => h.joined p.1 (List.fst_mem_of_mem_zipIdx hp)

theorem map_position_links (h : d.IsConversation) :
    d.links.map Link.position = List.range d.edges.length := by
  have hs := congrArg (List.map Prod.snd) h.map_edge_position_links
  rw [List.map_map] at hs
  rw [List.range_eq_range', ← List.zipIdx_map_snd 0 d.edges, ← hs]
  rfl

theorem connected_eq (h : d.IsConversation) : d.connected = d.edges := by
  rw [connected_eq_filter, List.filter_eq_self]
  exact h.joined

theorem order_eq (h : d.IsConversation) (hl : l ∈ d.links) : l.edge.order = some l.position := by
  have he := (mem_links.1 hl).1
  have hlt := (List.getElem?_eq_some_iff.1 he).1
  have hr := congrArg (·[l.position]?) h.rows
  rw [List.getElem?_map, he, List.getElem?_map, List.getElem?_range hlt] at hr
  exact Option.some_inj.1 hr

theorem rowAt_eq (h : d.IsConversation) (hl : l ∈ d.links) :
    l.edge.rowAt l.position = l.position := by
  simp [Edge.rowAt, h.order_eq hl]

theorem eq_of_id_eq (h : d.IsConversation) {m : Link K} (hl : l ∈ d.links) (hm : m ∈ d.links)
    (hid : l.edge.id = m.edge.id) : l = m :=
  List.inj_on_of_nodup_map (nodup_id_links h.named) hl hm hid

/-- Each message has one route. -/
theorem mem_exactRoutes_iff (h : d.IsConversation) (root : K → K) (s : LayoutSettings K)
    (style : PathStyle) (hl : l ∈ d.links) {r : Route K} :
    r ∈ d.exactRoutes root s style ∧ r.edge = l.edge.id ↔
      r = ⟨l.edge.id, Route.message s l, none⟩ := by
  rw [exactRoutes_eq_map_message root s style h.kind, List.mem_map]
  constructor
  · rintro ⟨⟨m, hm, rfl⟩, hid⟩
    rw [h.eq_of_id_eq hm hl hid]
  · rintro rfl
    exact ⟨⟨l, hl, rfl⟩, rfl⟩

theorem x_message [IsStrictOrderedRing K] {s : LayoutSettings K} {header : Rect K}
    (h : d.IsConversation) (he : d.extent = some header) (hl : l ∈ d.links) :
    ∀ p ∈ Route.message s l, header.x ≤ p.x ∧ p.x ≤ header.right := by
  obtain ⟨-, hs, ht⟩ := mem_links.1 hl
  have hms := List.mem_of_getElem? (getElem?_of_locate? hs).1
  have hmt := List.mem_of_getElem? (getElem?_of_locate? ht).1
  exact Route.x_message (holds_box he hms) (holds_box he hmt) (h.sizes _ hms).1 (h.sizes _ hmt).1

end Diagram.IsConversation

end Drafting
