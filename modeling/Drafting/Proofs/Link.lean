import Drafting.Diagram.Link
import Drafting.Proofs.Partition

namespace Drafting.Diagram

variable {α : Type} {d : Diagram α}

def ids (d : Diagram α) : List String := d.nodes.map Node.id

theorem isSome_locate? {id : String} : (d.locate? id).isSome ↔ id ∈ d.ids := by
  rw [locate?, Option.isSome_map, List.find?_isSome, ids, List.mem_map]
  constructor
  · rintro ⟨⟨n, i⟩, hp, hid⟩
    rw [List.mem_reverse] at hp
    exact ⟨n, List.fst_mem_of_mem_zipIdx hp, by simpa using hid⟩
  · rintro ⟨n, hn, rfl⟩
    obtain ⟨i, hi⟩ := List.mem_iff_getElem?.1 hn
    exact ⟨(n, i), List.mem_reverse.2 (List.mem_zipIdx_iff_getElem?.2 hi), by simp⟩

theorem getElem?_of_locate? {id : String} {p : Endpoint α} (h : d.locate? id = some p) :
    d.nodes[p.index]? = some p.node ∧ p.node.id = id := by
  obtain ⟨⟨n, i⟩, hf, rfl⟩ := Option.map_eq_some_iff.1 h
  refine ⟨List.mem_zipIdx_iff_getElem?.1 (List.mem_reverse.1 (List.mem_of_find?_eq_some hf)), ?_⟩
  simpa using List.find?_some hf

theorem index_unique (hd : d.ids.Nodup) {i j : Nat} {m n : Node α} (hi : d.nodes[i]? = some m)
    (hj : d.nodes[j]? = some n) (h : m.id = n.id) : i = j := by
  have hi' : d.ids[i]? = some m.id := by rw [ids, List.getElem?_map, hi]; rfl
  have hj' : d.ids[j]? = some n.id := by rw [ids, List.getElem?_map, hj]; rfl
  exact (List.getElem?_inj (List.getElem?_eq_some_iff.1 hi').1 hd).1 (by rw [hi', hj', h])

theorem locate?_eq_some_iff (hd : d.ids.Nodup) {id : String} {p : Endpoint α} :
    d.locate? id = some p ↔ d.nodes[p.index]? = some p.node ∧ p.node.id = id := by
  refine ⟨getElem?_of_locate?, ?_⟩
  rintro ⟨hp, rfl⟩
  have hkeys : (d.nodes.zipIdx.map fun q => q.1.id).Nodup := by
    rwa [ids, ← List.zipIdx_map_fst 0 d.nodes, List.map_map] at hd
  have hm : (p.node, p.index) ∈ d.nodes.zipIdx := List.mem_zipIdx_iff_getElem?.2 hp
  exact congrArg (Option.map _) (find?_reverse_of_nodup_keys hkeys hm)

theorem node?_eq (hd : d.ids.Nodup) (id : String) :
    d.node? id = (d.locate? id).map Endpoint.node := by
  cases hl : d.locate? id with
  | none =>
      have hid : id ∉ d.ids := by
        rw [← isSome_locate?, hl]
        simp
      rw [Option.map_none, node?, List.find?_eq_none]
      exact fun n hn he => hid (List.mem_map.2 ⟨n, hn, by simpa using he⟩)
  | some p =>
      obtain ⟨hp, hid⟩ := getElem?_of_locate? hl
      have hm : (d.node? id).isSome :=
        List.find?_isSome.2 ⟨p.node, List.mem_of_getElem? hp, by simpa using hid⟩
      obtain ⟨m, hm⟩ := Option.isSome_iff_exists.1 hm
      have hmid : m.id = id := by simpa using List.find?_some hm
      obtain ⟨i, hi⟩ := List.mem_iff_getElem?.1 (List.mem_of_find?_eq_some hm)
      rw [index_unique hd hi hp (hmid.trans hid.symm), hp] at hi
      rw [hm, ← hi]
      rfl

def joins (d : Diagram α) (e : Edge) : Bool :=
  (d.locate? e.source).isSome && (d.locate? e.target).isSome

theorem joins_iff {e : Edge} : d.joins e ↔ e.source ∈ d.ids ∧ e.target ∈ d.ids := by
  rw [joins, Bool.and_eq_true, isSome_locate?, isSome_locate?]

theorem joins_eq_decide (d : Diagram α) (e : Edge) :
    d.joins e = decide (e.source ∈ d.ids ∧ e.target ∈ d.ids) :=
  Bool.eq_iff_iff.2 (joins_iff.trans decide_eq_true_iff.symm)

theorem map_edge_link? (position : Nat) (e : Edge) :
    (d.link? position e).map Link.edge = if d.joins e then some e else none := by
  rw [link?, joins]
  cases d.locate? e.source <;> cases d.locate? e.target <;> rfl

theorem map_edge_position_links (d : Diagram α) :
    d.links.map (fun l => (l.edge, l.position)) = d.edges.zipIdx.filter fun p => d.joins p.1 := by
  rw [links, List.map_filterMap, ← List.filterMap_eq_filter]
  refine List.filterMap_congr fun p _ => ?_
  cases hs : d.locate? p.1.source <;> cases ht : d.locate? p.1.target <;>
    simp [link?, joins, Option.guard, hs, ht]

theorem connected_eq_filter (d : Diagram α) : d.connected = d.edges.filter d.joins := by
  have he : d.edges.zipIdx.map Prod.fst = d.edges := List.zipIdx_map_fst 0 d.edges
  conv => rhs; rw [← he, ← List.filterMap_eq_filter, List.filterMap_map]
  rw [connected, links, List.map_filterMap]
  simp only [map_edge_link?]
  rfl

theorem link?_eq_some {position : Nat} {e : Edge} {l : Link α} :
    d.link? position e = some l ↔ l.position = position ∧ l.edge = e ∧
      d.locate? e.source = some l.source ∧ d.locate? e.target = some l.target := by
  rw [link?]
  cases l
  cases d.locate? e.source <;> cases d.locate? e.target <;> simp
  grind

theorem mem_links {l : Link α} : l ∈ d.links ↔ d.edges[l.position]? = some l.edge ∧
    d.locate? l.edge.source = some l.source ∧ d.locate? l.edge.target = some l.target := by
  rw [links, List.mem_filterMap]
  constructor
  · rintro ⟨⟨e, k⟩, hp, hl⟩
    obtain ⟨rfl, rfl, hs, ht⟩ := link?_eq_some.1 hl
    exact ⟨List.mem_zipIdx_iff_getElem?.1 hp, hs, ht⟩
  · rintro ⟨hp, hs, ht⟩
    exact ⟨(l.edge, l.position), List.mem_zipIdx_iff_getElem?.2 hp,
      link?_eq_some.2 ⟨rfl, rfl, hs, ht⟩⟩

theorem nodup_position_links (d : Diagram α) : (d.links.map Link.position).Nodup := by
  have h := congrArg (List.map Prod.snd) d.map_edge_position_links
  rw [List.map_map] at h
  have hs := map_snd_filter_zipIdx_sublist (fun p => d.joins p.1) d.edges
  rw [← h] at hs
  exact List.nodup_range.sublist hs

theorem getElem?_connected {i : Nat} {l : Link α} (h : d.links[i]? = some l) :
    d.connected[i]? = some l.edge := by
  rw [connected, List.getElem?_map, h]
  rfl

end Drafting.Diagram
