import Drafting.Layout
import Drafting.Number.Binary32
import Drafting.Proofs.Page.Conversation
import Drafting.Proofs.Route.Message

namespace Drafting

open Page Page.Conversation

variable {α : Type} {d : Diagram α} {edges : List Edge}

def Edge.row (e : Edge) : Nat := e.order.getD 0

structure Diagram.RowsApart (d : Diagram α) : Prop where
  numbered : ∀ e ∈ d.edges, e.order ≠ none
  apart : (d.edges.map Edge.order).Nodup

namespace Diagram.RowsApart

theorem perm (h : d.RowsApart) (hp : edges.Perm d.edges) :
    RowsApart { d with edges := edges } where
  numbered e he := h.numbered e (hp.mem_iff.1 he)
  apart := (hp.map Edge.order).nodup_iff.2 h.apart

theorem rowAt_eq (h : d.RowsApart) {e : Edge} (he : e ∈ d.edges) (k : Nat) :
    e.rowAt k = e.row := by
  obtain ⟨row, hr⟩ := Option.ne_none_iff_exists'.1 (h.numbered e he)
  simp [Edge.rowAt, Edge.row, hr]

theorem eq_of_row_eq (h : d.RowsApart) {e f : Edge} (he : e ∈ d.edges) (hf : f ∈ d.edges)
    (hr : e.row = f.row) : e = f := by
  obtain ⟨m, hm⟩ := Option.ne_none_iff_exists'.1 (h.numbered e he)
  obtain ⟨n, hn⟩ := Option.ne_none_iff_exists'.1 (h.numbered f hf)
  refine List.inj_on_of_nodup_map h.apart he hf ?_
  simp_all [Edge.row]

end Diagram.RowsApart

theorem Diagram.connected_perm (hp : edges.Perm d.edges) :
    (connected { d with edges := edges }).Perm d.connected := by
  rw [connected_eq_filter, connected_eq_filter]
  exact hp.filter _

namespace Page.Conversation

def spokenEdges (d : Diagram α) : List Edge := (spoken d).map Link.edge

theorem spokenEdges_perm (d : Diagram α) : (spokenEdges d).Perm d.connected := (spoken_perm d).map _

theorem mem_edges_of_mem_spokenEdges {e : Edge} (he : e ∈ spokenEdges d) : e ∈ d.edges := by
  rw [(spokenEdges_perm d).mem_iff, Diagram.connected_eq_filter] at he
  exact List.mem_of_mem_filter he

theorem pairwise_spokenEdges (h : d.RowsApart) :
    (spokenEdges d).Pairwise fun e f => e.row ≤ f.row := by
  refine List.pairwise_map.2 ((pairwise_spoken d).imp_of_mem fun hl hm hlt => ?_)
  rename_i l m
  have hrow {l : Link α} (hl : l ∈ spoken d) : l.edge.rowAt l.position = l.edge.row :=
    h.rowAt_eq (mem_edges_of_mem_spokenEdges (List.mem_map_of_mem hl)) _
  rw [Link.key, Link.key, hrow hl, hrow hm, Prod.Lex.toLex_lt_toLex] at hlt
  exact hlt.elim le_of_lt fun h => h.1.le

/-- The rows fix the order in which messages are spoken, wherever they are listed. -/
theorem spokenEdges_reorder (h : d.RowsApart) (hp : edges.Perm d.edges) :
    spokenEdges { d with edges := edges } = spokenEdges d := by
  have hperm : (spokenEdges { d with edges := edges }).Perm (spokenEdges d) :=
    (spokenEdges_perm _).trans ((Diagram.connected_perm hp).trans (spokenEdges_perm d).symm)
  refine hperm.eq_of_pairwise ?_ (pairwise_spokenEdges (h.perm hp)) (pairwise_spokenEdges h)
  intro e f he hf hef hfe
  exact h.eq_of_row_eq (mem_edges_of_mem_spokenEdges (hperm.mem_iff.1 he))
    (mem_edges_of_mem_spokenEdges hf)
    (le_antisymm hef hfe)

variable [Scalar α] {s : PageSettings α} {run : List (Link α)}

theorem map_edge_runs (s : PageSettings α) (d : Diagram α) :
    (runs s d).map (List.map Link.edge) =
      if spokenEdges d = [] then [[]] else deal (messagesPerPage s) (spokenEdges d) := by
  rw [runs, spokenEdges, deal_map]
  by_cases h : spoken d = [] <;> simp [h]

def showing (s : PageSettings α) (nodes : List (Node α)) (edges : List Edge) : Selection α :=
  let (shift, frame) := frameOf s ((Node.extent nodes).getD .zero) (edges.map fun e => ⟨e.row, 0⟩)
  { frame
    shift
    nodes
    edges
    external := [] }

theorem ofRun_eq_showing (h : d.RowsApart) (hr : run ∈ runs s d) :
    ofRun s d run = showing s d.nodes (run.map Link.edge) := by
  have hrows : (run.map Message.ofLink).map (fun m => ⟨m.order, 0⟩) =
      (run.map Link.edge).map fun e => (⟨e.row, 0⟩ : Message) := by
    rw [List.map_map, List.map_map]
    refine List.map_congr_left fun l hl => ?_
    have he := List.mem_of_getElem? (Diagram.mem_links.1 (mem_links_of_mem_runs hr hl)).1
    exact congrArg (Message.mk · 0) (h.rowAt_eq he l.position)
  have hframe := frameOf_map s ((Node.extent d.nodes).getD .zero) (fun _ => rfl)
    (g := fun m => ⟨m.order, 0⟩) (run.map Message.ofLink)
  rw [hrows] at hframe
  rw [ofRun, selectMessages, ← hframe, showing]
  exact congrArg (Selection.mk _ _ _ · _) (edges_ofRun hr)

theorem conversation_reorder (s : PageSettings α) (h : d.RowsApart) (hp : edges.Perm d.edges) :
    conversation s { d with edges := edges } = conversation s d := by
  have hshow {d : Diagram α} (h : d.RowsApart) : conversation s d =
      (if spokenEdges d = [] then [[]] else deal (messagesPerPage s) (spokenEdges d)).map
        (showing s d.nodes) := by
    rw [conversation_eq_map_runs, ← map_edge_runs, List.map_map]
    exact List.map_congr_left fun run hr => ofRun_eq_showing h hr
  rw [hshow (h.perm hp), hshow h, spokenEdges_reorder h hp]

theorem pages_reorder (s : PageSettings α) (h : d.RowsApart) (hk : d.kind = .sequence)
    (hp : edges.Perm d.edges) : Diagram.pages s { d with edges := edges } = d.pages s := by
  have hs : selections s { d with edges := edges } = selections s d := by
    rw [selections_conversation hk, selections_conversation (d := { d with edges := edges }) hk,
      conversation_reorder s h hp]
  rw [pages_eq, pages_eq, hs]

end Page.Conversation

namespace Diagram

variable [EuclideanScalar α]

def messageRoute (s : LayoutSettings α) (d : Diagram α) (e : Edge) : Route α :=
  match d.link? 0 e with
  | some l => ⟨e.id, Route.message s l, none⟩
  | none => ⟨e.id, [], none⟩

theorem routes_eq_map_connected (s : LayoutSettings α) (style : PathStyle) (h : d.RowsApart)
    (hk : d.kind = .sequence) : d.routes s style = d.connected.map (d.messageRoute s) := by
  rw [routes_eq_map_message s style hk, connected, List.map_map]
  refine List.map_congr_left fun l hl => ?_
  obtain ⟨he, hs, ht⟩ := mem_links.1 hl
  obtain ⟨row, hr⟩ := Option.ne_none_iff_exists'.1 (h.numbered _ (List.mem_of_getElem? he))
  have hlink : d.link? 0 l.edge = some { l with position := 0 } :=
    link?_eq_some.2 ⟨rfl, rfl, hs, ht⟩
  simp [messageRoute, hlink, Route.message, hr]

/-- Two conversations between the same nodes with the same pages, whose messages take the same
routes. -/
structure SpokenAlike (d e : Diagram α) : Prop where
  nodes : e.nodes = d.nodes
  connected : e.connected.Perm d.connected
  routes : ∀ s style, ∃ route : Edge → Route α,
    d.routes s style = d.connected.map route ∧ e.routes s style = e.connected.map route
  pages : ∀ s, e.pages s = d.pages s

theorem RowsApart.spokenAlike (h : d.RowsApart) (hk : d.kind = .sequence)
    (hp : edges.Perm d.edges) : SpokenAlike d { d with edges := edges } where
  nodes := rfl
  connected := connected_perm hp
  routes s style :=
    ⟨d.messageRoute s, routes_eq_map_connected s style h hk,
      routes_eq_map_connected s style (h.perm hp) hk⟩
  pages s := Page.Conversation.pages_reorder s h hk hp

/-- The edges of a conversation may be listed in any order when each message has a row of its own:
nodes have the same places, messages the same routes, and the pages are the same. -/
theorem layout_spokenAlike_perm (d : Diagram α) (hk : d.kind = .sequence)
    (hn : ∀ e ∈ d.edges, e.order ≠ none) (ha : (d.edges.map Edge.order).Nodup)
    (edges : List Edge) (hp : edges.Perm d.edges) :
    SpokenAlike d { d with edges := edges } ∧
      ∀ s : LayoutSettings α, SpokenAlike (d.layout s) (layout s { d with edges := edges }) := by
  have h : d.RowsApart := ⟨hn, ha⟩
  refine ⟨h.spokenAlike hk hp, fun s => ?_⟩
  have hl : layout s { d with edges := edges } = { d.layout s with edges := edges } := by
    simp only [layout, Layout.place, hk]
    rfl
  have hd : (d.layout s).RowsApart := ⟨h.numbered, h.apart⟩
  rw [hl]
  exact hd.spokenAlike hk hp

def unorderedMessages : Diagram Float32 where
  kind := .sequence
  nodes :=
    [⟨"node-1", .actor, 0, 0, 100, 50, "questions", none⟩,
      ⟨"node-2", .actor, 0, 0, 0, 50, "answers", none⟩]
  edges :=
    [⟨"edge-1", "node-2", "node-1", some "because", some .async, some 3⟩,
      ⟨"edge-2", "node-1", "node-2", some "why?", some .sync, some 0⟩,
      ⟨"edge-3", "node-1", "nobody", none, some .sync, some 1⟩,
      ⟨"edge-4", "node-2", "node-2", none, some .sync, some 7⟩]
  title := none
  skipped := []
  unresolved := []

theorem unorderedMessages_spokenAlike_reverse :
    unorderedMessages.edges.reverse ≠ unorderedMessages.edges ∧
      SpokenAlike unorderedMessages
        { unorderedMessages with edges := unorderedMessages.edges.reverse } ∧
      ∀ s : LayoutSettings Float32,
        SpokenAlike (unorderedMessages.layout s)
          (layout s { unorderedMessages with edges := unorderedMessages.edges.reverse }) :=
  ⟨by decide, layout_spokenAlike_perm unorderedMessages rfl (by decide) (by decide) _
    (List.reverse_perm _)⟩

end Diagram

end Drafting
