import Drafting.Number.Binary32
import Drafting.Proofs.Layout.Cover
import Drafting.Proofs.Layout.Recast.Mindmap
import Drafting.Proofs.Layout.Recast.UseCase
import Drafting.Proofs.Skeleton

namespace Drafting

open Layout Node

variable {α : Type} [Scalar α] {f : String → String}

namespace Diagram

def unplaced (d : Diagram α) : Diagram α := { d with nodes := d.nodes.map Node.unplaced }

def sized (d : Diagram α) : Diagram α := { d with nodes := d.nodes.map ensureSize }

/-- Two diagrams of equal sizes that are joined alike, the second one without places. -/
structure IsRecast (f : String → String) (d e : Diagram α) : Prop where
  kind : e.kind = d.kind
  nodes : e.nodes = d.nodes.map (recast f)
  joints : e.joints = d.joints

namespace IsRecast

variable {d e : Diagram α}

theorem sameSkeleton (h : IsRecast f d e) : SameSkeleton d e where
  kind := h.kind
  kinds := by
    rw [h.nodes, List.map_map]
    rfl
  joints := h.joints

theorem placeRows (h : IsRecast f d e) {rule : RowRule α} (hr : rule.Blind f)
    {rows : List (List Nat)} (hrows : Partitions rows d.nodes.length) :
    settle e.nodes (Layout.placeRows rule (rows.map (pick e.nodes))) =
      (settle d.nodes (Layout.placeRows rule (rows.map (pick d.nodes)))).map (Node.rename f) := by
  have hpick : rows.map (pick e.nodes) = (rows.map (pick d.nodes)).map (onNodes (recast f)) := by
    rw [h.nodes, List.map_map]
    exact List.map_congr_left fun row _ => pick_map _ _ _
  rw [hpick, hr.placeRows, h.nodes, (covers_placeRows rule hrows).settle_recast]

theorem place (h : IsRecast f d e) (s : LayoutSettings α) :
    Layout.place s e = (Layout.place s d).map (Node.rename f) := by
  have hs := h.sameSkeleton
  rw [Layout.place, Layout.place, h.kind]
  cases d.kind with
  | classes | generic =>
      simp only [Hierarchy.place, hs.layers]
      rw [h.placeRows (Hierarchy.blind_rule f _) (Layers.layers_partitions d), normalize_rename]
  | flow =>
      simp only [FlowChart.place, hs.flowLayers]
      rw [h.placeRows (FlowChart.blind_rule f _) (FlowChart.layers_partitions d), normalize_rename,
        FlowChart.shiftRows_rename, settle_rename]
  | mindmap =>
      simp only [Mindmap.place, hs.trees]
      rw [h.nodes, Mindmap.stack_recast, (Mindmap.covers_stack s.mindmap d).settle_recast,
        normalize_rename]
  | sequence => exact Conversation.place_recast f s h.nodes
  | useCase => exact UseCase.place_recast s h.nodes h.joints

theorem sized (h : IsRecast f d e) : IsRecast f d.sized e.sized where
  kind := h.kind
  nodes := by
    rw [Diagram.sized, Diagram.sized, h.nodes, List.map_map, List.map_map]
    rfl
  joints := by
    have hjoints (c : Diagram α) : c.sized.joints = c.joints := joints_congr List.map_map rfl
    rw [hjoints, hjoints, h.joints]

theorem layout (h : IsRecast f d e) (s : LayoutSettings α) :
    (e.layout s).nodes = (d.layout s).nodes.map (Node.rename f) := h.sized.place s

end IsRecast

theorem isRecast_unplaced (d : Diagram α) : IsRecast id d d.unplaced where
  kind := rfl
  nodes := rfl
  joints := joints_congr List.map_map rfl

omit [Scalar α] in
theorem map_rename_id (nodes : List (Node α)) : nodes.map (Node.rename id) = nodes := List.map_id _

theorem layout_unplaced (s : LayoutSettings α) (d : Diagram α) :
    d.unplaced.layout s = d.layout s := by
  have hn := (isRecast_unplaced d).layout s
  rw [map_rename_id] at hn
  exact congrArg (fun nodes => { d with nodes }) hn

theorem IsRecast.layout_of_unplaced {d e : Diagram α} (h : IsRecast f d e.unplaced)
    (s : LayoutSettings α) : (e.layout s).nodes = (d.layout s).nodes.map (Node.rename f) := by
  rw [← layout_unplaced, h.layout]

theorem unplaced_layout (s : LayoutSettings α) (d : Diagram α) :
    (d.layout s).unplaced = d.sized.unplaced :=
  congrArg (fun nodes => { d with nodes }) (map_unplaced_place s d.sized)

theorem ids_layout (s : LayoutSettings α) (d : Diagram α) : (d.layout s).ids = d.ids := by
  have hn := congrArg Diagram.nodes (unplaced_layout s d)
  have hids := congrArg (List.map Node.id) hn
  simp only [unplaced, sized, List.map_map] at hids
  exact hids

theorem kinds_layout (s : LayoutSettings α) (d : Diagram α) :
    (d.layout s).nodes.map Node.kind = d.nodes.map Node.kind := by
  have hn := congrArg Diagram.nodes (unplaced_layout s d)
  have hkinds := congrArg (List.map Node.kind) hn
  simp only [unplaced, sized, List.map_map] at hkinds
  exact hkinds

theorem sameSkeleton_layout (s : LayoutSettings α) (d : Diagram α) :
    SameSkeleton d (d.layout s) where
  kind := rfl
  kinds := kinds_layout s d
  joints := joints_congr (ids_layout s d) rfl

theorem sized_sized (d : Diagram α) : d.sized.sized = d.sized := by
  have hsize (n : Node α) : ensureSize (ensureSize n) = ensureSize n := by
    simp only [ensureSize]
    congr 1 <;> (split <;> simp_all)
  rw [sized, sized, List.map_map]
  exact congrArg (fun nodes => { d with nodes }) (List.map_congr_left fun n _ => hsize n)

theorem layout_sized (s : LayoutSettings α) (d : Diagram α) : d.sized.layout s = d.layout s := by
  change { d.sized.sized with nodes := place s d.sized.sized } = _
  rw [sized_sized]
  rfl

/-- Diagrams that differ in places only are laid out alike, and a layout is its own. It is not
that everything is lost on the way: a layout keeps all but places and missing sizes. -/
theorem layout_stable (s : LayoutSettings α) :
    (∀ d e : Diagram α, d.unplaced = e.unplaced → d.layout s = e.layout s) ∧
      (∀ d : Diagram α, (d.layout s).layout s = d.layout s) ∧
      ∀ d : Diagram α, (d.layout s).unplaced = d.sized.unplaced := by
  refine ⟨fun d e h => ?_, fun d => ?_, unplaced_layout s⟩
  · rw [← layout_unplaced, h, layout_unplaced]
  · rw [← layout_unplaced, unplaced_layout, layout_unplaced, layout_sized]

def unsizedAt (x y : Float32) : Diagram Float32 where
  kind := .useCase
  nodes :=
    [⟨"node-1", .actor, x, y, 0, 0, "Clerk", none⟩,
      ⟨"node-2", .useCase, x, y, 0, 0, "Fetch mail", none⟩]
  edges :=
    [⟨"edge-1", "node-1", "node-2", none, some .association, none⟩,
      ⟨"edge-2", "node-2", "node-1", none, some .association, none⟩]
  title := none
  skipped := []
  unresolved := []

theorem unsizedAt_layout_stable :
    (unsizedAt 700 (-30)).unplaced = (unsizedAt Binary32.undefined Binary32.infinity).unplaced ∧
      (unsizedAt 700 (-30)).layout .standard =
        (unsizedAt Binary32.undefined Binary32.infinity).layout .standard :=
  ⟨rfl, (layout_stable .standard).1 _ _ rfl⟩

end Diagram

end Drafting
