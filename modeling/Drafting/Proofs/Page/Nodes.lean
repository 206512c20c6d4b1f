import Drafting.Page
import Drafting.Proofs.Binary32
import Drafting.Proofs.Page.ActorGroups
import Drafting.Proofs.Page.Units

namespace Drafting

variable {α : Type} [Scalar α] {d : Diagram α} {s : PageSettings α}

namespace Page

def groupsOf (s : PageSettings α) (d : Diagram α) : List (List Nat) :=
  match Node.extent d.nodes with
  | none => []
  | some r => if fits s r then [List.range d.nodes.length] else groups s d r

theorem selections_eq (hk : d.kind ≠ .sequence) :
    selections s d = (groupsOf s d).map (select d d.connected) := by
  rw [selections, groupsOf]
  cases Node.extent d.nodes with
  | none => rfl
  | some r => exact if_neg hk

theorem selections_conversation (hk : d.kind = .sequence) :
    selections s d = if d.nodes.isEmpty then [] else conversation s d := by
  rw [selections]
  cases he : Node.extent d.nodes with
  | none => rw [extent_eq_none.1 he, List.isEmpty_nil, if_pos rfl]
  | some r =>
      have hn : ¬ d.nodes.isEmpty := by
        rw [List.isEmpty_iff, ← extent_eq_none, he]
        exact Option.some_ne_none r
      rw [if_neg hn]
      exact if_pos hk

theorem groups_partitions (s : PageSettings α) (d : Diagram α) (extent : Rect α) :
    Partitions (groups s d extent) d.nodes.length := by
  have hc := pack_partitions s (clusters_partitions d.graph)
  rw [groups]
  split
  · exact hc
  · exact pack_partitions s (levelsOf_partitions d)
  · exact pack_partitions s (actorGroups_partitions d)
  · split
    · exact pack_partitions s (bands_partitions s.bandTolerance d.nodes)
    · exact hc
    · exact cells_partitions s extent d.nodes

theorem groups_ne_nil {extent : Rect α} : ∀ group ∈ groups s d extent, group ≠ [] := by
  rw [groups]
  split
  · exact pack_ne_nil
  · exact pack_ne_nil
  · exact pack_ne_nil
  · split
    · exact pack_ne_nil
    · exact pack_ne_nil
    · exact cells_ne_nil

theorem groupsOf_partitions (s : PageSettings α) (d : Diagram α) :
    Partitions (groupsOf s d) d.nodes.length := by
  rw [groupsOf]
  cases he : Node.extent d.nodes with
  | none => simp [Partitions, extent_eq_none.1 he]
  | some r =>
      dsimp only
      split
      · simp [Partitions]
      · exact groups_partitions s d r

theorem inRange_of_mem_groupsOf {group : List Nat} (h : group ∈ groupsOf s d) :
    InRange d.nodes group :=
  fun _ hi => (groupsOf_partitions s d).lt h hi

theorem groupsOf_ne_nil : ∀ group ∈ groupsOf s d, group ≠ [] := by
  rw [groupsOf]
  cases he : Node.extent d.nodes with
  | none => simp
  | some r =>
      have hn : d.nodes ≠ [] := by
        intro h
        rw [extent_eq_none.2 h] at he
        cases he
      dsimp only
      split
      · simpa using hn
      · exact groups_ne_nil

omit [Scalar α] in
def inOrder (d : Diagram α) (group : List Nat) : List Nat :=
  (List.range d.nodes.length).filter group.contains

omit [Scalar α] in
theorem mem_inOrder {group : List Nat} (hr : InRange d.nodes group) {i : Nat} :
    i ∈ inOrder d group ↔ i ∈ group := by
  rw [inOrder, List.mem_filter, List.mem_range, List.contains_iff_mem]
  exact ⟨And.right, fun h => ⟨hr i h, h⟩⟩

omit [Scalar α] in
theorem inOrder_perm {group : List Nat} (hn : group.Nodup) (hr : InRange d.nodes group) :
    (inOrder d group).Perm group :=
  filter_contains_perm List.nodup_range hn fun i hi => List.mem_range.2 (hr i hi)

theorem nodes_select (connected : List Edge) (group : List Nat) :
    (select d connected group).nodes.map some = (inOrder d group).map (d.nodes[·]?) := by
  rw [inOrder, ← map_snd_zipIdx, List.filter_map, List.map_map, select, List.map_map]
  refine List.map_congr_left fun p hp => ?_
  exact (List.mem_zipIdx_iff_getElem?.1 (List.mem_filter.1 hp).1).symm

theorem nodes_select_sublist (connected : List Edge) (group : List Nat) :
    (select d connected group).nodes.Sublist d.nodes := by
  have h : (d.nodes.zipIdx.map Prod.fst) = d.nodes := List.zipIdx_map_fst 0 d.nodes
  conv => rhs; rw [← h]
  exact List.filter_sublist.map _

theorem map_lower_zero {nodes : List (Node α)} (h : ∀ n ∈ nodes, n.y + 0 = n.y) :
    nodes.map (Node.lower 0) = nodes := by
  conv => rhs; rw [← List.map_id nodes]
  refine List.map_congr_left fun n hn => ?_
  rw [Node.lower, h n hn, id_eq]

def ofSelection (s : PageSettings α) (title : Option String) (total : Nat) (index : Nat)
    (sel : Selection α) : Page α :=
  { number := index + 1
    total
    title := titleOf title (index + 1) total
    viewBox := sel.frame.inflate s.padding
    nodes := sel.nodes.map (Node.lower sel.shift)
    edges := sel.edges
    external := sel.external }

theorem pages_eq (s : PageSettings α) (d : Diagram α) :
    d.pages s = (selections s d).mapIdx (ofSelection s d.title (selections s d).length) := by
  rw [List.mapIdx_eq_zipIdx_map]
  rfl

theorem getElem?_pages (hk : d.kind ≠ .sequence) (j : Nat) :
    (d.pages s)[j]? = (groupsOf s d)[j]?.map fun group =>
      ofSelection s d.title (groupsOf s d).length j (select d d.connected group) := by
  rw [pages_eq, List.getElem?_mapIdx, selections_eq hk, List.getElem?_map, List.length_map,
    Option.map_map]
  rfl

theorem map_nodes_pages (hk : d.kind ≠ .sequence) :
    (d.pages s).map nodes =
      (groupsOf s d).map fun group => (select d d.connected group).nodes.map (Node.lower 0) := by
  refine List.ext_getElem? fun j => ?_
  rw [List.getElem?_map, getElem?_pages hk, List.getElem?_map, Option.map_map]
  rfl

theorem map_number_pages (s : PageSettings α) (d : Diagram α) :
    (d.pages s).map number = List.range' 1 (d.pages s).length := by
  refine List.ext_getElem? fun j => ?_
  rw [pages_eq, List.getElem?_map, List.getElem?_mapIdx, List.length_mapIdx, Option.map_map]
  by_cases hj : j < (selections s d).length
  · simp [hj, ofSelection, Nat.add_comm]
  · simp [hj]

theorem total_of_mem_pages {p : Page α} (h : p ∈ d.pages s) : p.total = (d.pages s).length := by
  rw [pages_eq] at h ⊢
  obtain ⟨j, _, rfl⟩ := List.mem_mapIdx.1 h
  rw [List.length_mapIdx, ofSelection]

omit [Scalar α] in
theorem map_inOrder_partitions {groups : List (List Nat)} (h : Partitions groups d.nodes.length) :
    Partitions (groups.map (inOrder d)) d.nodes.length := by
  refine List.Perm.trans ?_ h
  rw [← List.flatMap_def]
  refine (List.Perm.flatMap_left groups fun group hg => ?_).trans (by rw [List.flatMap_id'])
  exact inOrder_perm (h.nodup hg) fun i hi => h.lt hg hi

theorem map_some_nodes_pages (hk : d.kind ≠ .sequence) :
    (d.pages s).map (fun p => p.nodes.map some) =
      ((groupsOf s d).map (inOrder d)).map fun group =>
        group.map ((d.nodes.map (Node.lower 0))[·]?) := by
  have hgroup (group : List Nat) :
      ((select d d.connected group).nodes.map (Node.lower 0)).map some =
        (inOrder d group).map ((d.nodes.map (Node.lower 0))[·]?) := by
    have h := congrArg (List.map (Option.map (Node.lower 0)))
      (nodes_select (d := d) d.connected group)
    simpa only [List.map_map, Function.comp_def, Option.map_some, ← List.getElem?_map] using h
  have h := congrArg (List.map (List.map some)) (map_nodes_pages (s := s) hk)
  simpa only [List.map_map, Function.comp_def, hgroup] using h

theorem inOrder_ne_nil {group : List Nat} (h : group ∈ groupsOf s d) : inOrder d group ≠ [] := by
  intro he
  have hp := inOrder_perm ((groupsOf_partitions s d).nodup h) (inRange_of_mem_groupsOf h)
  rw [he] at hp
  exact groupsOf_ne_nil group h hp.nil_eq.symm

theorem exists_group_of_mem_pages (hk : d.kind ≠ .sequence) {p : Page α} (h : p ∈ d.pages s) :
    ∃ group ∈ groupsOf s d,
      p.nodes = (select d d.connected group).nodes.map (Node.lower 0) := by
  have hm : p.nodes ∈ (d.pages s).map nodes := List.mem_map_of_mem h
  rw [map_nodes_pages hk] at hm
  obtain ⟨group, hg, hn⟩ := List.mem_map.1 hm
  exact ⟨group, hg, hn.symm⟩

theorem nodes_ne_nil_of_mem_pages (hk : d.kind ≠ .sequence) {p : Page α} (h : p ∈ d.pages s) :
    p.nodes ≠ [] := by
  obtain ⟨group, hg, hn⟩ := exists_group_of_mem_pages hk h
  rw [hn, Ne, List.map_eq_nil_iff, ← List.map_eq_nil_iff (f := some), nodes_select,
    List.map_eq_nil_iff]
  exact inOrder_ne_nil hg

theorem nodes_sublist_of_mem_pages (hk : d.kind ≠ .sequence) {p : Page α} (h : p ∈ d.pages s) :
    p.nodes.Sublist (d.nodes.map (Node.lower 0)) := by
  obtain ⟨group, -, hn⟩ := exists_group_of_mem_pages hk h
  rw [hn]
  exact (nodes_select_sublist _ _).map _

theorem flatMap_nodes_pages_perm (hk : d.kind ≠ .sequence) :
    ((d.pages s).flatMap nodes).Perm (d.nodes.map (Node.lower 0)) := by
  have hp := (map_inOrder_partitions (groupsOf_partitions s d)).map
    ((d.nodes.map (Node.lower 0))[·]?)
  have hrange := map_getElem?_range (d.nodes.map (Node.lower 0))
  rw [List.length_map] at hrange
  rw [List.map_flatten, ← map_some_nodes_pages hk, hrange] at hp
  refine (List.map_perm_map_iff fun _ _ => Option.some.inj).1 ?_
  rwa [List.map_flatMap, List.flatMap_def]

end Page

open Page

theorem Node.lower_zero (n : Node Float32) :
    n.lower 0 = if n.y = -0 then { n with y := 0 } else n := by
  have hzero : (-0 : Float32) + 0 = 0 := by decide +kernel
  split
  next h => rw [Node.lower, h, hzero]
  next h => rw [Node.lower, Binary32.add_zero_iff.2 h]

/-- The pages of a diagram that is no conversation take up the positions of its nodes, each once
and each group in order, and show what stands there. Nodes are moved down by zero, which leaves
them as they are unless a coordinate changes when zero is added: in single precision, unless it is
the negative zero. -/
theorem Diagram.pages_nodes_partition :
    (∀ n : Node Float32, n.lower 0 = if n.y = -0 then { n with y := 0 } else n) ∧
    ∀ {α : Type} [Scalar α] (s : PageSettings α) (d : Diagram α), d.kind ≠ .sequence →
      let shown := d.nodes.map (Node.lower (0 : α))
      ((∀ n ∈ d.nodes, n.y + 0 = n.y) → shown = d.nodes) ∧
        (∃ groups : List (List Nat), Partitions groups d.nodes.length ∧
          (∀ group ∈ groups, group ≠ [] ∧ group.Pairwise (· < ·)) ∧
          (d.pages s).map (fun p => p.nodes.map some) =
            groups.map fun group => group.map (shown[·]?)) ∧
        ((d.pages s).flatMap Page.nodes).Perm shown ∧
        (∀ p ∈ d.pages s, p.nodes ≠ [] ∧ p.nodes.Sublist shown) ∧
        (d.pages s).map Page.number = List.range' 1 (d.pages s).length ∧
        ∀ p ∈ d.pages s, p.total = (d.pages s).length := by
  refine ⟨Node.lower_zero, fun {α} _ s d hk => ?_⟩
  have hgroups : ∀ group ∈ (groupsOf s d).map (inOrder d), group ≠ [] ∧ group.Pairwise (· < ·) :=
    List.forall_mem_map.2 fun group hg =>
      ⟨inOrder_ne_nil hg, List.pairwise_lt_range.filter _⟩
  exact ⟨map_lower_zero,
    ⟨_, map_inOrder_partitions (groupsOf_partitions s d), hgroups, map_some_nodes_pages hk⟩,
    flatMap_nodes_pages_perm hk,
    fun p hp => ⟨nodes_ne_nil_of_mem_pages hk hp, nodes_sublist_of_mem_pages hk hp⟩,
    map_number_pages s d, fun p => total_of_mem_pages⟩

def Diagram.sameId : Diagram Float32 where
  kind := .flow
  nodes :=
    [⟨"node-1", .process, 0, 0, 5000, 60, "first", none⟩,
      ⟨"node-1", .decision, Binary32.undefined, Binary32.infinity, 140, 90, "second", none⟩]
  edges := [⟨"edge-1", "node-1", "nobody", none, some .flow, none⟩]
  title := none
  skipped := []
  unresolved := []

theorem Diagram.sameId_pages_nodes :
    Diagram.sameId.kind ≠ .sequence ∧ (∀ n ∈ Diagram.sameId.nodes, n.y + 0 = n.y) ∧
      ((Diagram.sameId.pages .standard).flatMap Page.nodes).Perm Diagram.sameId.nodes := by
  have hzero : ∀ n ∈ Diagram.sameId.nodes, n.y ≠ -0 := by decide +kernel
  have hy : ∀ n ∈ Diagram.sameId.nodes, n.y + 0 = n.y := fun n hn =>
    Binary32.add_zero_iff.2 (hzero n hn)
  obtain ⟨hsame, -, hperm, -⟩ :=
    Diagram.pages_nodes_partition.2 .standard Diagram.sameId (by decide)
  exact ⟨by decide, hy, hsame hy ▸ hperm⟩

end Drafting
