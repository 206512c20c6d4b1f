import Drafting.Proofs.Page.Nodes
import Drafting.Proofs.Skeleton

namespace Drafting.Page

open Scalar

variable {α : Type} [Scalar α] {ns ms : List (Node α)}

theorem groupExtent_eq (nodes : List (Node α)) (group : List Nat) :
    groupExtent nodes group = Rect.enclosing? (group.filterMap ((nodes.map Node.box)[·]?)) := by
  rw [groupExtent, Node.extent, List.map_filterMap]
  simp only [List.getElem?_map]

theorem groupExtent_congr (h : ms.map Node.box = ns.map Node.box) (group : List Nat) :
    groupExtent ms group = groupExtent ns group := by
  rw [groupExtent_eq, groupExtent_eq, h]

theorem readingOrder_congr (h : ms.map Node.box = ns.map Node.box) (group : List Nat) :
    readingOrder ms group = readingOrder ns group := by
  have hboxes (nodes : List (Node α)) (i : Nat) :
      (nodes[i]?.map fun n => (i, n.box)) = (nodes.map Node.box)[i]?.map (i, ·) := by
    rw [List.getElem?_map, Option.map_map]
    rfl
  simp only [readingOrder, hboxes, h]

theorem pack_congr (s : PageSettings α) (h : ms.map Node.box = ns.map Node.box)
    (units : List (List Nat)) : pack s ms units = pack s ns units := by
  have hchunks : chunksOf s ms = chunksOf s ns := by
    funext unit
    simp only [chunksOf, splitUnit, groupExtent_congr h, readingOrder_congr h]
  simp only [pack, hchunks, groupExtent_congr h]

theorem bands_congr (tolerance : α) (h : ms.map Node.box = ns.map Node.box) :
    bands tolerance ms = bands tolerance ns := by
  have hlength : ms.length = ns.length := by simpa using congrArg List.length h
  rw [bands, bands, hlength, readingOrder_congr h]

theorem cells_congr (s : PageSettings α) (area : Rect α) (h : ms.map Node.box = ns.map Node.box) :
    cells s area ms = cells s area ns := by
  have hlength : ms.length = ns.length := by simpa using congrArg List.length h
  have hcenters : ms.map Node.center = ns.map Node.center := by
    have hmap := congrArg (List.map Rect.center) h
    rwa [List.map_map, List.map_map] at hmap
  have hholding (cell : Point α → Cell) :
      (ms.map fun n => cell n.center) = ns.map fun n => cell n.center := by
    have hmap := congrArg (List.map cell) hcenters
    rwa [List.map_map, List.map_map] at hmap
  rw [cells, cells, hlength, hholding]

theorem groupsOf_congr (s : PageSettings α) {d e : Diagram α} (hs : d.SameSkeleton e)
    (h : e.nodes.map Node.box = d.nodes.map Node.box) : groupsOf s e = groupsOf s d := by
  have hextent : Node.extent e.nodes = Node.extent d.nodes := congrArg Rect.enclosing? h
  have hgroups (r : Rect α) : groups s e r = groups s d r := by
    simp only [groups, hs.kind, hs.graph, hs.levelsOf, hs.actorGroups, pack_congr s h,
      bands_congr s.bandTolerance h, cells_congr s r h]
  simp only [groupsOf, hextent, hs.length, hgroups]

end Drafting.Page
