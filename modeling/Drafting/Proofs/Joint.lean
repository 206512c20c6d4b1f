import Drafting.Graph
import Drafting.Proofs.Link

namespace Drafting.Diagram

variable {α β : Type} {d : Diagram α} {e : Diagram β}

def joints (d : Diagram α) : List (Nat × Nat) :=
  d.links.map fun l => (l.source.index, l.target.index)

theorem graph_eq (d : Diagram α) :
    d.graph = ⟨d.nodes.length, d.joints.filter fun p => p.1 ≠ p.2⟩ := by
  rw [graph, joints, List.filter_map, ← List.filterMap_eq_filter, List.map_filterMap]
  congr 1
  refine List.filterMap_congr fun l _ => ?_
  by_cases h : l.source.index = l.target.index <;> simp [h, Option.guard]

theorem graph_congr (hn : e.nodes.length = d.nodes.length) (hj : e.joints = d.joints) :
    e.graph = d.graph := by
  rw [graph_eq, graph_eq, hn, hj]

def position? (ids : List String) (id : String) : Option Nat :=
  (ids.zipIdx.reverse.find? fun p => p.1 == id).map Prod.snd

theorem index_locate? (d : Diagram α) (id : String) :
    (d.locate? id).map Endpoint.index = position? d.ids id := by
  rw [locate?, position?, ids, List.zipIdx_map, ← List.map_reverse, List.find?_map, Option.map_map,
    Option.map_map]
  rfl

def joint? (ids : List String) (e : Edge) : Option (Nat × Nat) := do
  some (← position? ids e.source, ← position? ids e.target)

theorem joint?_eq (d : Diagram α) (k : Nat) (e : Edge) :
    (d.link? k e).map (fun l => (l.source.index, l.target.index)) = joint? d.ids e := by
  rw [link?, joint?, ← index_locate?, ← index_locate?]
  cases d.locate? e.source <;> cases d.locate? e.target <;> rfl

theorem joints_eq (d : Diagram α) : d.joints = d.edges.filterMap (joint? d.ids) := by
  have he : d.edges.zipIdx.map Prod.fst = d.edges := List.zipIdx_map_fst 0 d.edges
  conv => rhs; rw [← he, List.filterMap_map]
  rw [joints, links, List.map_filterMap]
  exact List.filterMap_congr fun p _ => joint?_eq d p.2 p.1

/-- Only the identifiers of the nodes matter to what the links join. -/
theorem joints_congr (hi : e.ids = d.ids) (he : e.edges = d.edges) : e.joints = d.joints := by
  rw [joints_eq, joints_eq, hi, he]

end Drafting.Diagram
