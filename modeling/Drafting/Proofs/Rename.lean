import Drafting.Proofs.Link
import Mathlib.Data.List.Find
import Mathlib.Data.Set.Function

namespace Drafting

variable {α : Type} (f : String → String)

def Node.rename (n : Node α) : Node α := { n with id := f n.id }

def Edge.rename (e : Edge) : Edge := { e with source := f e.source, target := f e.target }

def Endpoint.rename (p : Endpoint α) : Endpoint α := ⟨p.index, p.node.rename f⟩

def Link.rename (l : Link α) : Link α :=
  ⟨l.position, l.edge.rename f, l.source.rename f, l.target.rename f⟩

namespace Diagram

def rename (d : Diagram α) : Diagram α :=
  { d with nodes := d.nodes.map (Node.rename f), edges := d.edges.map (Edge.rename f) }

def mentions (d : Diagram α) : Set String :=
  {id | id ∈ d.ids ∨ ∃ e ∈ d.edges, id = e.source ∨ id = e.target}

variable {f} {d : Diagram α}

theorem source_mem_mentions {e : Edge} (h : e ∈ d.edges) : e.source ∈ d.mentions :=
  .inr ⟨e, h, .inl rfl⟩

theorem target_mem_mentions {e : Edge} (h : e ∈ d.edges) : e.target ∈ d.mentions :=
  .inr ⟨e, h, .inr rfl⟩

theorem edge_mem_of_mem_links {l : Link α} (h : l ∈ d.links) : l.edge ∈ d.edges := by
  have hc : l.edge ∈ d.connected := List.mem_map_of_mem h
  rw [connected_eq_filter] at hc
  exact List.mem_of_mem_filter hc

theorem locate?_rename (hf : Set.InjOn f d.mentions) {id : String} (hid : id ∈ d.mentions) :
    (d.rename f).locate? (f id) = (d.locate? id).map (Endpoint.rename f) := by
  have hkey : ∀ p ∈ d.nodes.zipIdx.reverse, ((p.1.rename f).id == f id) = (p.1.id == id) := by
    intro p hp
    have hn : p.1.id ∈ d.mentions :=
      .inl (List.mem_map_of_mem (List.fst_mem_of_mem_zipIdx (List.mem_reverse.1 hp)))
    have hne : f p.1.id = f id ↔ p.1.id = id := hf.eq_iff hn hid
    exact Bool.eq_iff_iff.2 (by simpa [Node.rename] using hne)
  have hz : (d.rename f).nodes.zipIdx.reverse =
      d.nodes.zipIdx.reverse.map fun p => (p.1.rename f, p.2) := by
    rw [rename, List.zipIdx_map, ← List.map_reverse]
    rfl
  rw [locate?, locate?, hz, List.find?_map, Option.map_map, Option.map_map]
  exact congrArg (Option.map _) (List.find?_congr hkey)

theorem link?_rename (hf : Set.InjOn f d.mentions) (position : Nat) {e : Edge} (he : e ∈ d.edges) :
    (d.rename f).link? position (e.rename f) = (d.link? position e).map (Link.rename f) := by
  have hs := locate?_rename hf (source_mem_mentions he)
  have ht := locate?_rename hf (target_mem_mentions he)
  rw [link?, link?, Edge.rename]
  rw [hs, ht]
  cases d.locate? e.source <;> cases d.locate? e.target <;> rfl

theorem links_rename (hf : Set.InjOn f d.mentions) :
    (d.rename f).links = d.links.map (Link.rename f) := by
  rw [links, links, List.map_filterMap]
  change ((d.edges.map (Edge.rename f)).zipIdx.filterMap _) = _
  rw [List.zipIdx_map, List.filterMap_map]
  refine List.filterMap_congr fun p hp => ?_
  exact link?_rename hf p.2 (List.fst_mem_of_mem_zipIdx hp)

theorem connected_rename (hf : Set.InjOn f d.mentions) :
    (d.rename f).connected = d.connected.map (Edge.rename f) := by
  rw [connected, connected, links_rename hf, List.map_map, List.map_map]
  rfl

end Diagram

end Drafting
