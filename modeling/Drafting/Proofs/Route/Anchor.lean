import Drafting.Proofs.Link
import Drafting.Proofs.Route.Ends
import Drafting.Proofs.Route.Rename
import Drafting.Proofs.Route.Side

namespace Drafting

namespace Curve

variable {K : Type} [Field K] [LinearOrder K] [FloorSemiring K] (c : Curve K)

theorem point_zero : c.point 0 = c.start := by
  simp [point, Scalar.one_eq]

theorem point_one : c.point 1 = c.finish := by
  simp [point, Scalar.one_eq]

/-- In exact arithmetic a curve reaches its ends. -/
theorem leads_sample [IsStrictOrderedRing K] (segments : Nat) :
    Path.Leads c.start c.finish (c.sample segments) := by
  have hn : ((max segments 1 : Nat) : K) ≠ 0 := by
    rw [Nat.cast_ne_zero]
    omega
  constructor
  · rw [sample, List.head?_map, List.head?_range, if_neg (by omega), Option.map_some,
      Nat.cast_zero, zero_div, point_zero]
  · rw [sample, List.getLast?_map, List.getLast?_range, if_neg (by omega), Option.map_some,
      Nat.add_sub_cancel, div_self hn, point_one]

end Curve

section

variable {α : Type} [Scalar α]

def Edge.sides (e : Edge) (m n : Node α) : Side × Side :=
  if e.source = e.target then (.right, .top) else (Side.departure m n, Side.arrival m n)

end

namespace Diagram

variable {α : Type} {d : Diagram α}

theorem isSome_node? {id : String} : (d.node? id).isSome ↔ id ∈ d.ids := by
  rw [node?, List.find?_isSome, ids, List.mem_map]
  simp only [beq_iff_eq]

theorem joins_eq (d : Diagram α) :
    d.joins = fun e => (d.node? e.source).isSome && (d.node? e.target).isSome := by
  funext e
  rw [Bool.eq_iff_iff, joins_iff, Bool.and_eq_true, isSome_node?, isSome_node?]

theorem exists_link (hd : d.ids.Nodup) {k : Nat} {e : Edge} (he : d.edges[k]? = some e)
    {m n : Node α} (hm : d.node? e.source = some m) (hn : d.node? e.target = some n) :
    ∃ l ∈ d.links, l.position = k ∧ l.edge = e ∧ l.source.node = m ∧ l.target.node = n := by
  rw [node?_eq hd] at hm hn
  obtain ⟨p, hp, rfl⟩ := Option.map_eq_some_iff.1 hm
  obtain ⟨q, hq, rfl⟩ := Option.map_eq_some_iff.1 hn
  exact ⟨⟨k, e, p, q⟩, mem_links.2 ⟨he, hp, hq⟩, rfl, rfl, rfl, rfl⟩

theorem nodup_id_links (he : (d.edges.map Edge.id).Nodup) :
    (d.links.map fun l => l.edge.id).Nodup := by
  have hs : (d.connected.map Edge.id).Sublist (d.edges.map Edge.id) := by
    rw [connected_eq_filter]
    exact List.filter_sublist.map Edge.id
  have h := he.sublist hs
  rwa [connected, List.map_map] at h

variable [EuclideanScalar α] {s : LayoutSettings α} {style : PathStyle} {r : Route α} {l : Link α}

variable (s style d) in
theorem map_edge_routes : (d.routes s style).map Route.edge = d.connected.map Edge.id := by
  refine List.ext_getElem? fun i => ?_
  rw [List.getElem?_map, List.getElem?_map, connected, List.getElem?_map, getElem?_routes,
    Option.map_map, Option.map_map]
  exact Option.map_congr fun l _ => Route.edge_ofLink s d.kind style _ l

theorem nodup_edge_routes (he : (d.edges.map Edge.id).Nodup) :
    ((d.routes s style).map Route.edge).Nodup := by
  rw [map_edge_routes, connected, List.map_map]
  exact nodup_id_links he

theorem exists_link_of_mem_routes (hr : r ∈ d.routes s style) :
    ∃ l ∈ d.links, ∃ lane, r = Route.ofLink s d.kind style lane l := by
  obtain ⟨i, hi⟩ := List.mem_iff_getElem?.1 hr
  rw [getElem?_routes] at hi
  obtain ⟨l, hl, rfl⟩ := Option.map_eq_some_iff.1 hi
  exact ⟨l, List.mem_of_getElem? hl, _, rfl⟩

/-- The route that bears the identifier of an edge is the route of that edge. -/
theorem exists_lane_of_mem_routes (he : (d.edges.map Edge.id).Nodup) (hl : l ∈ d.links)
    (hr : r ∈ d.routes s style) (hid : r.edge = l.edge.id) :
    ∃ lane, r = Route.ofLink s d.kind style lane l := by
  obtain ⟨l', hl', lane, rfl⟩ := exists_link_of_mem_routes hr
  rw [Route.edge_ofLink] at hid
  rw [List.inj_on_of_nodup_map (nodup_id_links he) hl' hl hid]
  exact ⟨lane, rfl⟩

theorem leads_ofLink (hk : d.kind ≠ .sequence)
    (hc : style = .curved → ∀ c : Curve α, Path.Leads c.start c.finish (c.sample 12))
    (hl : l ∈ d.links) (lane : Route.Lane) :
    let sides := l.edge.sides l.source.node l.target.node
    Path.Leads (sides.1.point l.source.node) (sides.2.point l.target.node)
      (Route.ofLink s d.kind style lane l).points := by
  rw [Route.ofLink, if_neg hk, Edge.sides]
  split_ifs with hloop
  · obtain ⟨-, hs, ht⟩ := mem_links.1 hl
    rw [← hloop, hs, Option.some_inj] at ht
    rw [← ht]
    exact Route.leads_loop l.source.node 24
  · exact Route.leads_between s.routing hc lane l

end Diagram

end Drafting
