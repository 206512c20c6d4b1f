import Drafting.Layout
import Drafting.Proofs.Graph.Forest
import Drafting.Proofs.Layout.Layers
import Drafting.Proofs.Layout.UseCase
import Drafting.Proofs.Page.Pack

namespace Drafting.Layout

variable {α : Type} [Scalar α] {nodes : List (Node α)} {row : Placement α}

theorem blank_map (f : Node α → Node α) (hf : ∀ n, (f n).unplaced = n.unplaced)
    (row : Placement α) : blank (row.map fun p => (p.1, f p.2)) = blank row := by
  rw [blank, blank, onNodes, onNodes, List.map_map]
  exact List.map_congr_left fun p _ => congrArg (p.1, ·) (hf p.2)

theorem covers_placeRows (rule : RowRule α) {layers : List (List Nat)}
    (h : Partitions layers nodes.length) :
    Covers nodes (placeRows rule (layers.map (pick nodes))) := by
  refine Moved.covers (.of_eq ?_) h
  rw [blank_placeRows, flatten_map_pick]

namespace FlowChart

omit [Scalar α] in
theorem consolidate_partitions (d : Diagram α) {layers : List (List Nat)} {n : Nat}
    (h : Partitions layers n) : Partitions (consolidate d layers) n := by
  let ends := layers.flatMap fun l => l.filter (isEnd d)
  have hends : (if ends.isEmpty then [] else [ends]).flatten = ends := by
    cases ends <;> simp
  have hkept : (((layers.map fun l => l.filter fun i => !isEnd d i).filter fun l =>
      !l.isEmpty)).flatten = layers.flatten.filter fun i => !isEnd d i := by
    rw [List.flatten_filter_not_isEmpty, List.filter_flatten]
  have hsplit : (consolidate d layers).flatten =
      (layers.flatten.filter fun i => !isEnd d i) ++ layers.flatten.filter (isEnd d) := by
    rw [← hkept, List.filter_flatten, ← List.flatMap_def, consolidate]
    split
    next he => rw [List.isEmpty_iff.1 he, List.append_nil]
    next => simp
  rw [Partitions, hsplit]
  refine List.perm_append_comm.trans ?_
  exact (List.filter_append_perm _ _).trans h

omit [Scalar α] in
theorem layers_partitions (d : Diagram α) : Partitions (layers d) d.nodes.length :=
  consolidate_partitions d (Layers.layers_partitions d)

theorem blank_shiftRow (minX : α) (row : Placement α) : blank (shiftRow minX row) = blank row := by
  rw [shiftRow]
  split
  · split
    · exact List.map_map
    · rfl
  · rfl

theorem covers_shiftRow (minX : α) {layers : List (List Nat)} (h : Partitions layers nodes.length) :
    Covers nodes (layers.flatMap fun l => shiftRow minX (pick nodes l)) := by
  refine Moved.covers (.of_eq ?_) h
  clear h
  induction layers with
  | nil => rfl
  | cons l layers ih =>
      rw [List.flatMap_cons, List.flatten_cons, pick_append, blank_append, blank_append, ih,
        blank_shiftRow]

end FlowChart

namespace Mindmap

theorem moved_band (nodes : List (Node α)) (unit direction x top start : α) (columns : List α)
    (f : Forest) : Moved (pick nodes f.nodes)
      (placeBand nodes unit x top f ++ placeFamilies nodes unit direction columns start f) := by
  induction f generalizing x top start columns with
  | nil => exact .of_eq rfl
  | cons i children siblings ihc ihs =>
      have hi : Moved (pick nodes [i]) ((pick nodes [i]).map fun p =>
          (p.1, p.2.placeCenter x (top + span unit children / 2))) :=
        .of_eq (blank_map _ (fun n => n.unplaced_placeCenter _ _) _)
      have hc := ihc (direction * columns.headD 0) start start columns.tail
      have hs := ihs x (top + span unit children) (start + span unit children) columns
      have hswap : Moved (pick nodes (i :: (children.nodes ++ siblings.nodes)))
          (pick nodes [i] ++ (pick nodes siblings.nodes ++ pick nodes children.nodes)) := by
        rw [← pick_append, ← pick_append]
        exact .of_perm (pick_perm nodes (List.perm_append_comm.append_left [i]))
      have h := hswap.trans (hi.append (hs.append hc))
      simp only [List.append_assoc] at h
      simpa only [placeBand, placeFamilies, Forest.nodes, List.append_assoc] using h

/-- The two sides of a tree hold all that is below its root. -/
theorem moved_placeSides (s : MindmapSettings α) (nodes : List (Node α)) (root n : Nat)
    (children : Forest) : Moved (pick nodes children.nodes)
      (placeSide s nodes root 1 (children.take n) ++
        placeSide s nodes root (-1) (children.drop n)) := by
  rw [← Forest.nodes_take_append_drop n children, pick_append]
  exact (moved_band nodes _ _ _ _ _ _ _).append (moved_band nodes _ _ _ _ _ _ _)

theorem moved_placeTree (s : MindmapSettings α) (nodes : List (Node α)) (root : Nat)
    (children : Forest) :
    Moved (pick nodes (root :: children.nodes)) (placeTree s nodes root children) := by
  have hroot : Moved (pick nodes [root]) ((pick nodes [root]).map fun p =>
      (p.1, p.2.placeCenter 0 0)) := .of_eq (blank_map _ (fun n => n.unplaced_placeCenter _ _) _)
  rw [← List.singleton_append, pick_append]
  exact hroot.append (moved_placeSides s nodes root _ children)

theorem moved_stack (s : MindmapSettings α) (nodes : List (Node α)) (top : α)
    {trees : List Forest} (h : ∀ t ∈ trees, ∃ root children, t = .cons root children .nil) :
    Moved (pick nodes (trees.flatMap Forest.nodes)) (stack s nodes top trees) := by
  induction trees generalizing top with
  | nil => exact .of_eq rfl
  | cons tree trees ih =>
      obtain ⟨root, children, rfl⟩ := h tree List.mem_cons_self
      have hrest (top : α) := ih top fun t ht => h t (List.mem_cons_of_mem _ ht)
      have htree := moved_placeTree s nodes root children
      rw [List.flatMap_cons, pick_append, Forest.nodes, Forest.nodes, List.append_nil, stack]
      cases he : Node.extent ((placeTree s nodes root children).map Prod.snd) with
      | none =>
          have hnil : placeTree s nodes root children = [] :=
            List.map_eq_nil_iff.1 (Page.extent_eq_none.1 he)
          rw [hnil] at htree
          simpa [he] using htree.append (hrest top)
      | some r =>
          have hshift : Moved (placeTree s nodes root children)
              ((placeTree s nodes root children).map fun p =>
                (p.1, { p.2 with y := p.2.y + (top - r.y) })) :=
            .of_eq List.map_map
          exact (htree.trans hshift).append (hrest _)

theorem covers_stack (s : MindmapSettings α) (d : Diagram α) :
    Covers d.nodes (stack s d.nodes 0 (trees d)) := by
  refine Moved.covers (moved_stack s d.nodes 0 fun t => Graph.exists_of_mem_spanFrom) ?_
  exact Graph.nodes_spanFrom_perm d.graph.nodup_nodes fun i => List.mem_append_right _

end Mindmap

/-- Placing leaves of every node all but its place. -/
theorem map_unplaced_place (s : LayoutSettings α) (d : Diagram α) :
    (place s d).map Node.unplaced = d.nodes.map Node.unplaced := by
  rw [place]
  cases d.kind with
  | classes | generic =>
      exact (map_unplaced_normalize _ _).trans
        (covers_placeRows _ (Layers.layers_partitions d)).map_unplaced_settle
  | flow =>
      have hlayers := FlowChart.layers_partitions d
      have hrows := (map_unplaced_normalize s.padding _).trans
        (covers_placeRows (FlowChart.rule s.flow) hlayers).map_unplaced_settle
      have hlength := congrArg List.length hrows
      rw [List.length_map, List.length_map] at hlength
      refine (FlowChart.covers_shiftRow s.flow.minX ?_).map_unplaced_settle.trans hrows
      rw [hlength]
      exact hlayers
  | mindmap =>
      exact (map_unplaced_normalize _ _).trans (Mindmap.covers_stack _ d).map_unplaced_settle
  | sequence =>
      refine (map_unplaced_normalize _ _).trans ?_
      exact map_zipWith_left (fun n x => n.unplaced_placeCorner x 0) (by simp)
  | useCase =>
      exact (map_unplaced_normalize _ _).trans (UseCase.covers_parts _ _ _ _).map_unplaced_settle

end Drafting.Layout
