import Drafting.Layout.UseCase
import Drafting.Proofs.Joint
import Drafting.Proofs.Layout.Placement

namespace Drafting.Layout.UseCase

open Scalar

variable {α : Type} [Scalar α]

def actorsOf (nodes : List (Node α)) : Placement α :=
  (nodes.zipIdx.map fun p => (p.2, p.1)).filter fun p => isActor p.2

def casesOf (nodes : List (Node α)) : Placement α :=
  (nodes.zipIdx.map fun p => (p.2, p.1)).filter fun p => !isActor p.2

def axisOf (s : UseCaseSettings α) (actors cases : Placement α) : α :=
  peak (actors.map fun p => p.2.width) + s.columnGap + peak (cases.map fun p => p.2.width) / 2

def settleCases (s : UseCaseSettings α) (axis : α) (d : Diagram α) : Diagram α :=
  { d with nodes := settle d.nodes (placeCases s axis (casesOf d.nodes)) }

def placeActors (s : UseCaseSettings α) (actors cases : Placement α) (links : List (Link α)) :
    Placement α :=
  let column := peak (actors.map fun p => p.2.width)
  let targets := targets links actors
  let linked := pushDown s.rowGap column bottom targets
  let casesEnd := (cases.map fun p => p.2.height + s.rowGap).foldl (· + ·) 0 - s.rowGap
  let lowest := (linked.map fun p => p.2.y + p.2.height).foldl greatest casesEnd
  linked ++ queueUp s.rowGap column (greatest lowest 0 + s.rowGap)
    (actors.filter fun p => !targets.any (·.index == p.1))

theorem place_eq (s : LayoutSettings α) (d : Diagram α) :
    place s d =
      let axis := axisOf s.useCase (actorsOf d.nodes) (casesOf d.nodes)
      normalize s.padding (settle d.nodes (placeCases s.useCase axis (casesOf d.nodes) ++
        placeActors s.useCase (actorsOf d.nodes) (casesOf d.nodes)
          (settleCases s.useCase axis d).links)) := rfl

omit [Scalar α] in
theorem mem_filter_zipIdx {nodes : List (Node α)} {q : Node α → Bool} {i : Nat} {n : Node α} :
    (i, n) ∈ ((nodes.zipIdx.map fun p => (p.2, p.1)).filter fun p => q p.2) ↔
      nodes[i]? = some n ∧ q n := by
  rw [List.mem_filter, ← pick_range, mem_pick, List.mem_range]
  constructor
  · exact fun h => ⟨h.1.2, h.2⟩
  · exact fun h => ⟨⟨(List.getElem?_eq_some_iff.1 h.1).1, h.1⟩, h.2⟩

omit [Scalar α] in
theorem mem_actorsOf {nodes : List (Node α)} {i : Nat} {n : Node α} :
    (i, n) ∈ actorsOf nodes ↔ nodes[i]? = some n ∧ isActor n := mem_filter_zipIdx

omit [Scalar α] in
theorem mem_casesOf {nodes : List (Node α)} {i : Nat} {n : Node α} :
    (i, n) ∈ casesOf nodes ↔ nodes[i]? = some n ∧ ¬ isActor n :=
  (mem_filter_zipIdx (q := fun n => !isActor n)).trans (by simp)

omit [Scalar α] in
theorem actorsOf_pairwise (nodes : List (Node α)) :
    (actorsOf nodes).Pairwise fun p q => p.1 < q.1 := by
  rw [actorsOf, ← pick_range, pick]
  refine List.Pairwise.filter _ (List.pairwise_lt_range.filterMap _ fun i j hij p hp q hq => ?_)
  obtain ⟨m, _, rfl⟩ := Option.map_eq_some_iff.1 hp
  obtain ⟨n, _, rfl⟩ := Option.map_eq_some_iff.1 hq
  exact hij

theorem isActor_of_unplaced {m n : Node α} (h : m.unplaced = n.unplaced) :
    isActor m = isActor n := by
  have hkind : m.unplaced.kind = n.unplaced.kind := congrArg Node.kind h
  exact congrArg (decide <| · = .actor) hkind

theorem moved_placeCases (s : UseCaseSettings α) (axis : α) (cases : Placement α) :
    Moved cases (placeCases s axis cases) :=
  .of_eq (blank_zipWith (fun n _ => axis - n.width / 2) (fun _ y => y) (by simp))

theorem joints_settleCases (s : UseCaseSettings α) (axis : α) (d : Diagram α) :
    (settleCases s axis d).joints = d.joints := by
  refine Diagram.joints_congr ?_ rfl
  have h := (moved_placeCases s axis (casesOf d.nodes)).map_unplaced_settle fun _ hp =>
    (mem_casesOf.1 hp).1
  have hids := congrArg (List.map Node.id) h
  rwa [List.map_map, List.map_map] at hids

theorem blank_pushDown (gap column : α) (free : Option α) (ts : List (Target α)) :
    blank (pushDown gap column free ts) = blank (ts.map fun t => (t.index, t.node)) := by
  induction ts generalizing free with
  | nil => rfl
  | cons t ts ih =>
      simp only [pushDown, blank, onNodes, List.map_cons, Node.unplaced_placeCorner] at ih ⊢
      exact congrArg _ (ih _)

theorem map_targets_perm (links : List (Link α)) (actors : Placement α) :
    ((targets links actors).map fun t => (t.index, t.node)).Perm
      (actors.filter fun p => !(linkedHeights links p.1).isEmpty) := by
  refine ((List.mergeSort_perm _ _).map _).trans (.of_eq ?_)
  rw [List.map_filterMap, ← List.filterMap_eq_filter]
  refine List.filterMap_congr fun p _ => ?_
  cases h : (linkedHeights links p.1).isEmpty <;> simp [h, Option.guard]

theorem any_targets (links : List (Link α)) {actors : Placement α} {p : Nat × Node α}
    (hp : p ∈ actors) : ((targets links actors).any (·.index == p.1)) =
      !(linkedHeights links p.1).isEmpty := by
  have hany : ((targets links actors).any (·.index == p.1)) =
      ((targets links actors).map fun t => (t.index, t.node)).any (·.1 == p.1) := by
    rw [List.any_map]
    rfl
  rw [hany, (map_targets_perm links actors).any_eq]
  apply Bool.eq_iff_iff.2
  simp only [List.any_eq_true, List.mem_filter, beq_iff_eq]
  constructor
  · rintro ⟨q, ⟨_, hq⟩, he⟩
    exact he ▸ hq
  · intro h
    exact ⟨p, ⟨hp, h⟩, rfl⟩

/-- Those that are linked and those that are not are all the actors. -/
theorem moved_placeActors (s : UseCaseSettings α) (actors cases : Placement α)
    (links : List (Link α)) : Moved actors (placeActors s actors cases links) := by
  let column := peak (actors.map fun p => p.2.width)
  let isLinked (p : Nat × Node α) : Bool := !(linkedHeights links p.1).isEmpty
  let queue := actors.filter fun p => !(targets links actors).any (·.index == p.1)
  have hlinked (free : Option α) : Moved (actors.filter isLinked)
      (pushDown s.rowGap column free (targets links actors)) := by
    rw [Moved, blank_pushDown]
    exact (map_targets_perm links actors).map _
  have hidle : queue = actors.filter fun p => !isLinked p :=
    List.filter_congr fun p hp => congrArg (!·) (any_targets links hp)
  have hqueued (top : α) : Moved queue (queueUp s.rowGap column top queue) :=
    .of_eq (blank_zipWith (fun n _ => (column - n.width) / 2) (fun _ y => y) (by simp))
  have hsplit : Moved actors (actors.filter isLinked ++ queue) := by
    rw [hidle]
    exact .of_perm (List.filter_append_perm _ _)
  exact hsplit.trans ((hlinked _).append (hqueued _))

theorem covers_parts (s : UseCaseSettings α) (axis : α) (nodes : List (Node α))
    (links : List (Link α)) :
    Covers nodes (placeCases s axis (casesOf nodes) ++
      placeActors s (actorsOf nodes) (casesOf nodes) links) := by
  have hsplit : Moved (nodes.zipIdx.map fun p => (p.2, p.1)) (casesOf nodes ++ actorsOf nodes) :=
    .of_perm (List.perm_append_comm.trans (List.filter_append_perm _ _))
  rw [Covers, pick_range]
  exact hsplit.trans ((moved_placeCases s axis _).append (moved_placeActors s _ _ links))

end Drafting.Layout.UseCase
