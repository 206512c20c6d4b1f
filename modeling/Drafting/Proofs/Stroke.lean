import Drafting.Drawing
import Drafting.Proofs.Route.Message

namespace Drafting

open Layout.Conversation

section

variable {α : Type}

structure Stroke.Follows (r : Route α) (stroke : Stroke α) : Prop where
  edge : r.edge = stroke.edge.id
  points : stroke.points = r.points
  control : stroke.control = r.curve.map Curve.control
  long : 2 ≤ r.points.length

theorem Stroke.edge_ofEdge (routes : List (Route α)) (e : Edge) :
    (Stroke.ofEdge routes e).edge = e := by
  rw [Stroke.ofEdge]
  split <;> rfl

theorem Stroke.map_edge_ofEdge (routes : List (Route α)) (edges : List Edge) :
    (edges.map (Stroke.ofEdge routes)).map Stroke.edge = edges := by
  simp only [List.map_map, Function.comp_def, Stroke.edge_ofEdge, List.map_id']

theorem Stroke.ofEdge_eq {routes : List (Route α)} (h : (routes.map Route.edge).Nodup)
    {r : Route α} (hr : r ∈ routes) {e : Edge} (hid : r.edge = e.id) :
    Stroke.ofEdge routes e = ⟨e, r.points, r.curve.map Curve.control⟩ := by
  rw [Stroke.ofEdge, ← hid, find?_reverse_of_nodup_keys h hr]

/-- A page shows no edge that lacks an end. -/
theorem Page.mem_connected_of_mem_pages [Scalar α] {d : Diagram α} {t : PageSettings α} {p : Page α}
    (hp : p ∈ d.pages t) {e : Edge} (he : e ∈ p.edges) : e ∈ d.connected := by
  by_cases hk : d.kind = .sequence
  · by_cases hn : d.nodes = []
    · rw [pages_eq, selections_conversation hk, hn] at hp
      simp at hp
    · obtain ⟨run, hrun, hedges, -⟩ := Conversation.exists_run_of_mem_pages hk hn hp
      rw [hedges] at he
      obtain ⟨l, hl, rfl⟩ := List.mem_map.1 he
      exact List.mem_map.2 ⟨l, Conversation.mem_links_of_mem_runs hrun hl, rfl⟩
  · obtain ⟨j, hj⟩ := List.mem_iff_getElem?.1 hp
    rw [getElem?_pages hk] at hj
    obtain ⟨group, -, rfl⟩ := Option.map_eq_some_iff.1 hj
    exact List.mem_of_mem_filter he

end

namespace Diagram

section

variable {α : Type} [EuclideanScalar α] {s : LayoutSettings α} {style : PathStyle} {d : Diagram α}
variable {r : Route α} {e : Edge}

variable (s style) in
theorem exists_route (he : e ∈ d.connected) : ∃ r ∈ d.routes s style, r.edge = e.id := by
  have h := List.mem_map_of_mem (f := Edge.id) he
  rw [← map_edge_routes d s style] at h
  exact List.mem_map.1 h

theorem two_le_length_of_mem_routes (hr : r ∈ d.routes s style) : 2 ≤ r.points.length := by
  obtain ⟨l, -, lane, rfl⟩ := exists_link_of_mem_routes hr
  exact Route.two_le_length_ofLink s d.kind style lane l

theorem follows_ofEdge (h : (d.edges.map Edge.id).Nodup) (he : e ∈ d.connected) :
    ∃ r ∈ d.routes s style, (Stroke.ofEdge (d.routes s style) e).Follows r := by
  obtain ⟨r, hr, hid⟩ := exists_route s style he
  refine ⟨r, hr, ?_⟩
  rw [Stroke.ofEdge_eq (nodup_edge_routes h) hr hid]
  exact ⟨hid, rfl, rfl, two_le_length_of_mem_routes hr⟩

theorem strokes_ofDiagram (h : (d.edges.map Edge.id).Nodup) (padding : α) :
    let strokes := (Drawing.ofDiagram d (d.routes s style) padding).strokes
    strokes.map Stroke.edge = d.connected ∧
      ∀ stroke ∈ strokes, ∃ r ∈ d.routes s style, stroke.Follows r := by
  refine ⟨Stroke.map_edge_ofEdge _ d.connected, fun stroke hstroke => ?_⟩
  obtain ⟨e, he, rfl⟩ := List.mem_map.1 hstroke
  exact follows_ofEdge h he

theorem strokes_ofPages (h : (d.edges.map Edge.id).Nodup) (t : PageSettings α) :
    let sheets := (Folio.ofPages d (d.pages t) (d.routes s style)).sheets
    sheets.map (fun sheet => sheet.strokes.map Stroke.edge) = (d.pages t).map Page.edges ∧
      ∀ sheet ∈ sheets, ∀ stroke ∈ sheet.strokes,
        ∃ r ∈ d.routes s style, stroke.Follows r := by
  refine ⟨?_, fun sheet hsheet stroke hstroke => ?_⟩
  · rw [Folio.ofPages, List.map_map]
    exact List.map_congr_left fun p _ => Stroke.map_edge_ofEdge _ p.edges
  · obtain ⟨p, hp, rfl⟩ := List.mem_map.1 hsheet
    obtain ⟨e, he, rfl⟩ := List.mem_map.1 hstroke
    exact follows_ofEdge h (Page.mem_connected_of_mem_pages hp he)

theorem points_of_message (hk : d.kind = .sequence) (hd : d.ids.Nodup)
    (hu : (d.edges.map Edge.id).Nodup) {k : Nat} (he : d.edges[k]? = some e) {m n : Node α}
    (hm : d.node? e.source = some m) (hn : d.node? e.target = some n) (hne : e.source ≠ e.target)
    (hr : r ∈ d.routes s style) (hid : r.edge = e.id) :
    r.points = [⟨m.center.x, messageY s (e.rowAt k)⟩, ⟨n.center.x, messageY s (e.rowAt k)⟩] := by
  obtain ⟨l, hl, rfl, rfl, rfl, rfl⟩ := exists_link hd he hm hn
  obtain ⟨lane, rfl⟩ := exists_lane_of_mem_routes hu hl hr hid
  rw [Route.ofLink, if_pos hk]
  exact if_neg hne

end

/-- Where no two nodes share an identifier and no two edges, there is one route for each edge that
has both ends, in the order of the edges. All of these are drawn on the whole and those of a page on
its sheet, and each that is drawn follows its route. A message from one actor to another runs level
in its row from axis to axis. In any other diagram, computed exactly, each route leads from the
middle of a side of its source to the middle of a side of its target. -/
theorem strokes_follow_routes (style : PathStyle) :
    (∀ {α : Type} [EuclideanScalar α] (s : LayoutSettings α) (d : Diagram α),
      d.ids.Nodup → (d.edges.map Edge.id).Nodup →
      ((d.routes s style).map Route.edge =
        (d.edges.filter fun e => (d.node? e.source).isSome && (d.node? e.target).isSome).map
          Edge.id) ∧
      (∀ padding,
        let strokes := (Drawing.ofDiagram d (d.routes s style) padding).strokes
        strokes.map Stroke.edge =
            (d.edges.filter fun e =>
              (d.node? e.source).isSome && (d.node? e.target).isSome) ∧
          ∀ stroke ∈ strokes, ∃ r ∈ d.routes s style, stroke.Follows r) ∧
      (∀ t,
        let sheets := (Folio.ofPages d (d.pages t) (d.routes s style)).sheets
        sheets.map (fun sheet => sheet.strokes.map Stroke.edge) = (d.pages t).map Page.edges ∧
          ∀ sheet ∈ sheets, ∀ stroke ∈ sheet.strokes,
            ∃ r ∈ d.routes s style, stroke.Follows r) ∧
      (d.kind = .sequence → ∀ (k : Nat) (e : Edge) (m n : Node α), d.edges[k]? = some e →
        d.node? e.source = some m → d.node? e.target = some n → e.source ≠ e.target →
          ∀ r ∈ d.routes s style, r.edge = e.id → r.points =
            [⟨m.center.x, messageY s (e.rowAt k)⟩, ⟨n.center.x, messageY s (e.rowAt k)⟩])) ∧
    ∀ {K : Type} [Field K] [LinearOrder K] [FloorSemiring K] [IsStrictOrderedRing K] (root : K → K)
      (s : LayoutSettings K) (d : Diagram K),
      d.ids.Nodup → (d.edges.map Edge.id).Nodup → d.kind ≠ .sequence →
      ∀ e ∈ d.edges, ∀ m n : Node K, d.node? e.source = some m → d.node? e.target = some n →
        ∀ r ∈ d.exactRoutes root s style, r.edge = e.id →
          let sides := e.sides m n
          Path.Leads (sides.1.point m) (sides.2.point n) r.points ∧
            sides.1.point m = m.box.middle sides.1 ∧ sides.2.point n = n.box.middle sides.2 := by
  constructor
  · intro α _ s d hd hu
    have hconnected : d.connected = d.edges.filter fun e =>
        (d.node? e.source).isSome && (d.node? e.target).isSome := by
      rw [connected_eq_filter, joins_eq]
    refine ⟨?_, fun padding => ?_, strokes_ofPages hu, ?_⟩
    · rw [map_edge_routes, hconnected]
    · rw [← hconnected]
      exact strokes_ofDiagram hu padding
    · intro hk k e m n he hm hn hne r hr hid
      exact points_of_message hk hd hu he hm hn hne hr hid
  · intro K _ _ _ _ root s d hd hu hk e he m n hm hn r hr hid
    let := Scalar.withRoot root
    obtain ⟨k, hk'⟩ := List.mem_iff_getElem?.1 he
    obtain ⟨l, hl, rfl, rfl, rfl, rfl⟩ := exists_link hd hk' hm hn
    obtain ⟨lane, rfl⟩ := exists_lane_of_mem_routes hu hl hr hid
    exact ⟨leads_ofLink hk (fun _ c => c.leads_sample 12) hl lane, Side.point_eq_middle _ _,
      Side.point_eq_middle _ _⟩

def edgeAndLoop : Diagram ℚ where
  kind := .flow
  nodes :=
    [⟨"node-1", .decision, 0, 0, 100, 50, "ready?", none⟩,
      ⟨"node-2", .process, 0, 200, 100, 50, "go", none⟩]
  edges :=
    [⟨"edge-1", "node-1", "node-2", none, none, none⟩,
      ⟨"edge-2", "node-2", "node-2", none, none, none⟩,
      ⟨"edge-3", "node-1", "nobody", none, none, none⟩]
  title := none
  skipped := []
  unresolved := []

theorem partlyNumbered_edgeAndLoop_follow_routes :
    (partlyNumbered.ids.Nodup ∧ (partlyNumbered.edges.map Edge.id).Nodup ∧
      (partlyNumbered.routes .standard .curved).map Route.edge = ["edge-1", "edge-2", "edge-4"] ∧
      ∃ r ∈ partlyNumbered.routes .standard .curved, r.edge = "edge-2" ∧
        r.points.map Point.y = [messageY .standard 1, messageY .standard 1]) ∧
    edgeAndLoop.ids.Nodup ∧ (edgeAndLoop.edges.map Edge.id).Nodup ∧ edgeAndLoop.kind ≠ .sequence ∧
      ∃ r ∈ edgeAndLoop.exactRoutes id .standard .curved, r.edge = "edge-1" ∧
        Path.Leads ⟨50, 50⟩ ⟨50, 200⟩ r.points := by
  obtain ⟨hall, hexact⟩ := strokes_follow_routes .curved
  refine ⟨⟨by decide, by decide, ?_⟩, by decide, by decide, by decide, ?_⟩
  · obtain ⟨hedges, -, -, hlevel⟩ := hall .standard partlyNumbered (by decide) (by decide)
    have hids : (partlyNumbered.routes .standard .curved).map Route.edge =
        ["edge-1", "edge-2", "edge-4"] :=
      hedges.trans (by decide)
    obtain ⟨r, hr, hid⟩ : ∃ r ∈ partlyNumbered.routes .standard .curved, r.edge = "edge-2" := by
      rw [← List.mem_map, hids]
      decide
    refine ⟨hids, r, hr, hid, ?_⟩
    rw [hlevel rfl 1 _ _ _ rfl rfl rfl (by decide) r hr hid]
    rfl
  · have hends : let sides := edgeAndLoop.edges[0].sides edgeAndLoop.nodes[0] edgeAndLoop.nodes[1]
        sides.1.point edgeAndLoop.nodes[0] = ⟨50, 50⟩ ∧
          sides.2.point edgeAndLoop.nodes[1] = ⟨50, 200⟩ := by
      decide +kernel
    let := Scalar.withRoot (id : ℚ → ℚ)
    obtain ⟨hedges, -⟩ := hall .standard edgeAndLoop (by decide) (by decide)
    obtain ⟨r, hr, hid⟩ : ∃ r ∈ edgeAndLoop.routes .standard .curved, r.edge = "edge-1" := by
      rw [← List.mem_map, hedges]
      decide
    refine ⟨r, hr, hid, ?_⟩
    obtain ⟨hleads, -⟩ := hexact id .standard edgeAndLoop (by decide) (by decide) (by decide)
      edgeAndLoop.edges[0] (by decide) edgeAndLoop.nodes[0] edgeAndLoop.nodes[1] rfl rfl r hr hid
    rwa [hends.1, hends.2] at hleads

end Diagram

end Drafting
