import Drafting.Layout.FlowChart
import Drafting.Layout.Mindmap
import Drafting.Page.ActorGroups
import Drafting.Page.Units
import Drafting.Proofs.Joint

namespace Drafting

variable {α β : Type}

theorem positions_congr {ns : List (Node α)} {ms : List (Node β)}
    (h : ms.map Node.kind = ns.map Node.kind) (q : NodeKind → Nat → Bool) :
    (ms.zipIdx.filter fun p => q p.1.kind p.2).map Prod.snd =
      (ns.zipIdx.filter fun p => q p.1.kind p.2).map Prod.snd := by
  have hkinds {γ : Type} (ks : List (Node γ)) :
      (ks.zipIdx.filter fun p => q p.1.kind p.2).map Prod.snd =
        ((ks.map Node.kind).zipIdx.filter fun p => q p.1 p.2).map Prod.snd := by
    rw [List.zipIdx_map, List.filter_map, List.map_map]
    rfl
  rw [hkinds, hkinds, h]

namespace Diagram

structure SameSkeleton (d : Diagram α) (e : Diagram β) : Prop where
  kind : e.kind = d.kind
  kinds : e.nodes.map Node.kind = d.nodes.map Node.kind
  joints : e.joints = d.joints

namespace SameSkeleton

open Layout Page

variable {d : Diagram α} {e : Diagram β}

theorem length (h : SameSkeleton d e) : e.nodes.length = d.nodes.length := by
  simpa using congrArg List.length h.kinds

theorem isEmpty (h : SameSkeleton d e) : e.nodes.isEmpty = d.nodes.isEmpty := by
  rw [← List.isEmpty_map (f := Node.kind), h.kinds, List.isEmpty_map]

theorem kind_getElem? (h : SameSkeleton d e) (i : Nat) :
    e.nodes[i]?.map Node.kind = d.nodes[i]?.map Node.kind := by
  rw [← List.getElem?_map, h.kinds, List.getElem?_map]

theorem graph (h : SameSkeleton d e) : e.graph = d.graph := graph_congr h.length h.joints

theorem rootSet (h : SameSkeleton d e) (g : Graph) : Layers.rootSet e g = Layers.rootSet d g := by
  have hroots := positions_congr h.kinds fun k i => g.isInitial i || k.isRootLike
  have hfirst : e.nodes.findIdx? (·.kind = Layers.fallbackRoot e.kind) =
      d.nodes.findIdx? (·.kind = Layers.fallbackRoot d.kind) := by
    have hkinds {γ : Type} (ns : List (Node γ)) :
        ns.findIdx? (·.kind = Layers.fallbackRoot d.kind) =
          (ns.map Node.kind).findIdx? (· = Layers.fallbackRoot d.kind) := by
      rw [List.findIdx?_map]
      rfl
    rw [h.kind, hkinds, hkinds, h.kinds]
  rw [Layers.rootSet, Layers.rootSet, hroots, hfirst]

theorem layers (h : SameSkeleton d e) : Layers.layers e = Layers.layers d := by
  have hseeds : Layers.seedGroups e d.graph = Layers.seedGroups d d.graph := by
    have hnonterminal := positions_congr h.kinds fun k _ => !k.isTerminal
    have hsingles := congrArg (List.map fun i => [i]) hnonterminal
    rw [List.map_map, List.map_map] at hsingles
    rw [Layers.seedGroups, Layers.seedGroups, h.rootSet]
    exact congrArg _ hsingles
  simp only [Layers.layers, h.isEmpty, h.graph, hseeds]

theorem isEnd (h : SameSkeleton d e) : FlowChart.isEnd e = FlowChart.isEnd d := by
  funext i
  have hi := h.kind_getElem? i
  rw [FlowChart.isEnd, FlowChart.isEnd]
  cases he : e.nodes[i]? <;> cases hd : d.nodes[i]? <;> simp_all

theorem flowLayers (h : SameSkeleton d e) : FlowChart.layers e = FlowChart.layers d := by
  rw [FlowChart.layers, FlowChart.layers, FlowChart.consolidate, FlowChart.consolidate, h.layers,
    h.isEnd]

theorem trees (h : SameSkeleton d e) : Mindmap.trees e = Mindmap.trees d := by
  have hroots := positions_congr h.kinds fun k i => k = .root || d.graph.isInitial i
  rw [Mindmap.trees, Mindmap.trees, h.graph, Mindmap.preferredRoots, Mindmap.preferredRoots,
    hroots]

theorem levelsOf (h : SameSkeleton d e) : levelsOf e = levelsOf d := by
  have hroot (i : Nat) : (e.nodes[i]?.any (·.kind = .root)) = d.nodes[i]?.any (·.kind = .root) := by
    have hi := h.kind_getElem? i
    cases he : e.nodes[i]? <;> cases hd : d.nodes[i]? <;> simp_all
  rw [Page.levelsOf, Page.levelsOf, h.graph]
  simp only [hroot]

theorem actorGroups (h : SameSkeleton d e) : actorGroups e = actorGroups d := by
  have hactors := positions_congr h.kinds fun k _ => k = .actor
  rw [Page.actorGroups, Page.actorGroups, h.graph, hactors]

end SameSkeleton

end Diagram

end Drafting
