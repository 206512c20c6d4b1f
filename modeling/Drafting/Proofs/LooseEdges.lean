import Drafting.Drawing
import Drafting.Proofs.Layout.Stable
import Drafting.Proofs.Page.Boxes
import Drafting.Proofs.Page.Conversation

namespace Drafting

variable {α : Type}

namespace Diagram

variable {d : Diagram α}

def joined (d : Diagram α) : Diagram α :=
  { d with edges := d.edges.filter fun e => decide (e.source ∈ d.ids ∧ e.target ∈ d.ids) }

theorem edges_joined (d : Diagram α) : d.joined.edges = d.edges.filter d.joins :=
  List.filter_congr fun _ _ => Bool.eq_iff_iff.2 (decide_eq_true_iff.trans joins_iff.symm)

def JoinsAt (d : Diagram α) (k : Nat) : Prop := ∃ e, d.edges[k]? = some e ∧ d.joins e

theorem joinsAt_position {l : Link α} (hl : l ∈ d.links) : d.JoinsAt l.position := by
  obtain ⟨he, hs, ht⟩ := mem_links.1 hl
  exact ⟨l.edge, he, by simp [joins, hs, ht]⟩

/-- The link at the place of its edge among those that have both ends. -/
def moveUp (d : Diagram α) (l : Link α) : Link α :=
  { l with position := standing d.joins d.edges l.position }

theorem links_joined (d : Diagram α) : d.joined.links = d.links.map d.moveUp := by
  rw [links, links, edges_joined, zipIdx_filter, List.filterMap_map, List.filterMap_filter,
    List.map_filterMap]
  refine List.filterMap_congr fun q _ => ?_
  change (if d.joins q.1 then d.link? (standing d.joins d.edges q.2) q.1 else none) = _
  rw [joins, link?, link?]
  cases d.locate? q.1.source <;> cases d.locate? q.1.target <;> rfl

theorem connected_joined (d : Diagram α) : d.joined.connected = d.connected := by
  rw [connected, connected, links_joined, List.map_map]
  rfl

theorem joints_joined (d : Diagram α) : d.joined.joints = d.joints := by
  rw [joints, joints, links_joined, List.map_map]
  rfl

theorem sameSkeleton_joined (d : Diagram α) : SameSkeleton d d.joined where
  kind := rfl
  kinds := rfl
  joints := joints_joined d

/-- No row of the diagram is read off the position of an edge: it is no conversation, or its
messages are numbered. -/
def Numbered (d : Diagram α) : Prop := d.kind ≠ .sequence ∨ ∀ e ∈ d.edges, e.order ≠ none

theorem Numbered.order (h : d.Numbered) (hk : d.kind = .sequence) {l : Link α} (hl : l ∈ d.links) :
    ∃ row, l.edge.order = some row := by
  have he : l.edge ∈ d.edges := List.mem_of_getElem? (mem_links.1 hl).1
  rcases h with h | h
  · exact absurd hk h
  · exact Option.ne_none_iff_exists'.1 (h _ he)

end Diagram

namespace Page.Conversation

variable {d : Diagram α}

def moveUp (d : Diagram α) (m : Message) : Message :=
  ⟨m.order, standing d.joins d.edges m.position⟩

theorem joinsAt_of_mem_messages {m : Message} (h : m ∈ messages d) : d.JoinsAt m.position := by
  rw [messages, List.mem_mergeSort] at h
  obtain ⟨l, hl, rfl⟩ := List.mem_map.1 h
  exact Diagram.joinsAt_position hl

theorem messages_joined (hd : d.Numbered) (hk : d.kind = .sequence) :
    messages d.joined = (messages d).map (moveUp d) := by
  have hlinks : d.joined.links.map Message.ofLink =
      (d.links.map Message.ofLink).map (moveUp d) := by
    rw [Diagram.links_joined, List.map_map, List.map_map]
    refine List.map_congr_left fun l hl => ?_
    obtain ⟨row, hrow⟩ := hd.order hk hl
    simp [Message.ofLink, Diagram.moveUp, moveUp, hrow]
  rw [messages, hlinks, messages]
  refine (List.map_mergeSort fun a ha b hb => ?_).symm
  obtain ⟨x, hx, hjx⟩ := joinsAt_of_mem_messages (List.mem_mergeSort.2 ha)
  obtain ⟨y, hy, hjy⟩ := joinsAt_of_mem_messages (List.mem_mergeSort.2 hb)
  simp only [Message.before, moveUp, standing_le_iff hx hjx hy hjy]

end Page.Conversation

namespace Page

variable [Scalar α] {d : Diagram α}

theorem selectMessages_joined (s : PageSettings α) {page : List Conversation.Message}
    (hp : ∀ m ∈ page, d.JoinsAt m.position) :
    selectMessages s d.joined (page.map (Conversation.moveUp d)) = selectMessages s d page := by
  have hedges : ((page.map (Conversation.moveUp d)).filterMap fun m =>
      d.joined.edges[m.position]?) = page.filterMap fun m => d.edges[m.position]? := by
    rw [List.filterMap_map]
    refine List.filterMap_congr fun m hm => ?_
    obtain ⟨e, he, hj⟩ := hp m hm
    rw [he, Diagram.edges_joined]
    exact getElem?_filter_standing he hj
  have hframe := Conversation.frameOf_map s ((Node.extent d.joined.nodes).getD .zero)
    (g := Conversation.moveUp d) (fun _ => rfl) page
  rw [selectMessages, hedges, hframe]
  rfl

theorem conversation_joined (s : PageSettings α) (hd : d.Numbered) (hk : d.kind = .sequence) :
    conversation s d.joined = conversation s d := by
  let runs := Conversation.deal (Conversation.messagesPerPage s) (Conversation.messages d)
  let pages := if runs.isEmpty then [[]] else runs
  have hruns : (if (runs.map (List.map (Conversation.moveUp d))).isEmpty then [[]]
      else runs.map (List.map (Conversation.moveUp d))) =
      pages.map (List.map (Conversation.moveUp d)) := by
    dsimp only [pages]
    cases runs <;> rfl
  have hpages : ∀ page ∈ pages, ∀ m ∈ page, d.JoinsAt m.position := by
    intro page hp m hm
    dsimp only [pages] at hp
    split at hp
    · rw [List.mem_singleton.1 hp] at hm
      cases hm
    · exact Conversation.joinsAt_of_mem_messages (Conversation.subset_of_mem_deal hp hm)
  rw [conversation, Conversation.messages_joined hd hk, Conversation.deal_map, hruns, List.map_map]
  exact List.map_congr_left fun page hp => selectMessages_joined s (hpages page hp)

theorem selections_joined (s : PageSettings α) (hd : d.Numbered) :
    selections s d.joined = selections s d := by
  by_cases hk : d.kind = .sequence
  · rw [selections_conversation hk, selections_conversation (d := d.joined) hk,
      conversation_joined s hd hk]
    rfl
  · have hgroups : groupsOf s d.joined = groupsOf s d :=
      groupsOf_congr s (Diagram.sameSkeleton_joined d) rfl
    rw [selections_eq hk, selections_eq (d := d.joined) hk, hgroups, Diagram.connected_joined]
    rfl

theorem pages_joined (s : PageSettings α) (hd : d.Numbered) : d.joined.pages s = d.pages s := by
  rw [pages_eq, pages_eq, selections_joined s hd]
  rfl

end Page

namespace Diagram

open Layout

section

variable [Scalar α] {d : Diagram α}

theorem layout_joined (s : LayoutSettings α) (d : Diagram α) :
    d.joined.layout s = (d.layout s).joined := by
  have hrecast : IsRecast id d d.joined.unplaced := {
    kind := rfl
    nodes := rfl
    joints := by rw [(isRecast_unplaced d.joined).joints, joints_joined] }
  have hn := hrecast.layout_of_unplaced s
  rw [map_rename_id] at hn
  have hedges : (d.layout s).joined.edges = d.joined.edges := by
    rw [edges_joined, edges_joined]
    refine List.filter_congr fun e _ => Bool.eq_iff_iff.2 ?_
    rw [joins_iff, joins_iff, ids_layout]
  exact congrArg₂ (fun nodes edges => { d with nodes, edges }) hn hedges.symm

theorem Numbered.layout (h : d.Numbered) (s : LayoutSettings α) : (d.layout s).Numbered := h

end

variable [EuclideanScalar α] {d : Diagram α}

theorem ofLink_moveUp (s : LayoutSettings α) (style : PathStyle) (lane : Route.Lane)
    (hd : d.Numbered) {l : Link α} (hl : l ∈ d.links) :
    Route.ofLink s d.kind style lane (d.moveUp l) = Route.ofLink s d.kind style lane l := by
  by_cases hk : d.kind = .sequence
  · obtain ⟨row, hrow⟩ := hd.order hk hl
    simp [Route.ofLink, hk, Route.message, moveUp, hrow]
  · rw [Route.ofLink, Route.ofLink, if_neg hk, if_neg hk]
    rfl

theorem routes_joined (s : LayoutSettings α) (style : PathStyle) (hd : d.Numbered) :
    d.joined.routes s style = d.routes s style := by
  have hedges : (d.links.map d.moveUp).map Link.edge = d.links.map Link.edge := List.map_map
  rw [routes, routes, links_joined, hedges, List.zipIdx_map, List.map_map]
  refine List.map_congr_left fun p hp => ?_
  exact ofLink_moveUp s style _ hd (List.fst_mem_of_mem_zipIdx hp)

/-- What is handed on of both diagrams is the same, whatever the settings. -/
structure DrawnAlike (d e : Diagram α) : Prop where
  nodes : e.nodes = d.nodes
  routes : ∀ s style, e.routes s style = d.routes s style
  pages : ∀ s, e.pages s = d.pages s
  drawing : ∀ s style padding, Drawing.ofDiagram e (e.routes s style) padding =
    Drawing.ofDiagram d (d.routes s style) padding
  folio : ∀ s style t, Folio.ofPages e (e.pages t) (e.routes s style) =
    Folio.ofPages d (d.pages t) (d.routes s style)

theorem Numbered.drawnAlike_joined (hd : d.Numbered) : DrawnAlike d d.joined where
  nodes := rfl
  routes s style := routes_joined s style hd
  pages s := Page.pages_joined s hd
  drawing s style padding := by
    rw [routes_joined s style hd, Drawing.ofDiagram, connected_joined]
    rfl
  folio s style t := by
    rw [routes_joined s style hd, Page.pages_joined t hd]
    rfl

/-- Edges that lack an end leave no trace, neither in what is drawn of a diagram as it stands nor
in its layout. A conversation is to number its messages, for else their rows are read off the
positions of all edges. -/
theorem layout_drawnAlike_joined (d : Diagram α) (hd : d.kind ≠ .sequence ∨
    ∀ e ∈ d.edges, e.order ≠ none) :
    DrawnAlike d d.joined ∧
      ∀ s : LayoutSettings α, DrawnAlike (d.layout s) (d.joined.layout s) := by
  have hnumbered : d.Numbered := hd
  refine ⟨hnumbered.drawnAlike_joined, fun s => ?_⟩
  rw [layout_joined]
  exact (hnumbered.layout s).drawnAlike_joined

def looseMessage : Diagram Float32 where
  kind := .sequence
  nodes :=
    [⟨"node-1", .actor, 0, 0, 80, 100, "Ann", none⟩, ⟨"node-2", .actor, 0, 0, 80, 100, "Bob", none⟩]
  edges :=
    [⟨"edge-1", "node-1", "nobody", none, some .sync, some 0⟩,
      ⟨"edge-2", "node-1", "node-2", none, some .sync, some 1⟩]
  title := none
  skipped := []
  unresolved := []

theorem looseMessage_drawnAlike_joined :
    (∀ e ∈ looseMessage.edges, e.order ≠ none) ∧
      looseMessage.joined.edges.map Edge.id = ["edge-2"] ∧
      DrawnAlike looseMessage looseMessage.joined ∧
      DrawnAlike (looseMessage.layout .standard) (looseMessage.joined.layout .standard) := by
  have horder : ∀ e ∈ looseMessage.edges, e.order ≠ none := by decide
  obtain ⟨hdrawn, hlaid⟩ := layout_drawnAlike_joined looseMessage (.inr horder)
  exact ⟨horder, by decide, hdrawn, hlaid .standard⟩

end Diagram

end Drafting
