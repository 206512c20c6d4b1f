import Drafting.Proofs.Layout.Recast
import Drafting.Proofs.Layout.UseCase

namespace Drafting.Layout.UseCase

open Scalar Node

variable {α : Type} [Scalar α] {f : String → String}

/-- What actors see of a node: nothing of each other, and of a use case its height. -/
def sight (n : Node α) : Option α := if isActor n then none else some n.center.y

def met (sights : List (Option α)) (actor : Nat) (j : Nat × Nat) : Option α :=
  match sights[j.1]?, sights[j.2]? with
  | some none, some (some y) => if j.1 == actor then some y else none
  | some (some y), some none => if j.2 == actor then some y else none
  | _, _ => none

theorem linkedHeights_links (d : Diagram α) (actor : Nat) :
    linkedHeights d.links actor = d.joints.filterMap (met (d.nodes.map sight) actor) := by
  rw [linkedHeights, Diagram.joints, List.filterMap_map]
  refine List.filterMap_congr fun l hl => ?_
  obtain ⟨_, hs, ht⟩ := Diagram.mem_links.1 hl
  have hsource := (Diagram.getElem?_of_locate? hs).1
  have htarget := (Diagram.getElem?_of_locate? ht).1
  simp only [Function.comp_apply, met, List.getElem?_map, hsource, htarget, Option.map_some, sight]
  cases isActor l.source.node <;> cases isActor l.target.node <;> simp

theorem isActor_recast (n : Node α) : isActor (n.recast f) = isActor n := rfl

theorem sight_rename (n : Node α) : sight (n.rename f) = sight n := rfl

theorem sight_recast {n : Node α} (h : isActor n) : sight (n.recast f) = sight n := by
  rw [sight, sight, isActor_recast, h]
  rfl

variable (f) in
def Target.recast (t : Target α) : Target α := ⟨t.index, t.node.recast f, t.top⟩

theorem targets_recast {links links' : List (Link α)}
    (h : ∀ i, linkedHeights links' i = linkedHeights links i) (actors : Placement α) :
    targets links' (onNodes (recast f) actors) =
      (targets links actors).map (Target.recast f) := by
  let ranked (a b : Target α) : Bool := ranks a.top b.top
  rw [targets, targets, List.map_mergeSort (r := ranked) (s := ranked) (f := Target.recast f)
    fun _ _ _ _ => rfl, onNodes, List.filterMap_map, List.map_filterMap]
  congr 1
  refine List.filterMap_congr fun p _ => ?_
  simp only [Function.comp_apply, h]
  cases (linkedHeights links p.1).isEmpty <;> rfl

theorem pushDown_recast (gap column : α) (free : Option α) (ts : List (Target α)) :
    pushDown gap column free (ts.map (Target.recast f)) =
      onNodes (rename f) (pushDown gap column free ts) := by
  induction ts generalizing free with
  | nil => rfl
  | cons t ts ih =>
      simp only [List.map_cons, pushDown, ih]
      simp [onNodes, Target.recast]

theorem queueUp_recast (gap column top : α) (actors : Placement α) :
    queueUp gap column top (onNodes (recast f) actors) =
      onNodes (rename f) (queueUp gap column top actors) := by
  rw [queueUp, queueUp, map_onNodes (recast f) (v := fun n => n.height + gap) fun _ => rfl]
  exact zipWith_recast f (fun n _ => (column - n.width) / 2) (fun _ y => y) (fun _ => rfl)
    (fun _ => rfl) actors _

theorem placeCases_recast (s : UseCaseSettings α) (axis : α) (cases : Placement α) :
    placeCases s axis (onNodes (recast f) cases) =
      onNodes (rename f) (placeCases s axis cases) := by
  rw [placeCases, placeCases,
    map_onNodes (recast f) (v := fun n => n.height + s.rowGap) fun _ => rfl]
  exact zipWith_recast f (fun n _ => axis - n.width / 2) (fun _ y => y) (fun _ => rfl)
    (fun _ => rfl) cases _

variable (s : UseCaseSettings α) (axis : α)

/-- When the use cases have their places, recast nodes offer the same sights. -/
theorem map_sight_settle (nodes : List (Node α)) :
    (settle (nodes.map (recast f)) (onNodes (rename f) (placeCases s axis (casesOf nodes)))).map
        sight =
      (settle nodes (placeCases s axis (casesOf nodes))).map sight := by
  refine map_settle_map sight_rename fun i n hn hl => sight_recast ?_
  by_contra hc
  exact (moved_placeCases s axis _).lookup_ne_none (mem_casesOf.2 ⟨hn, hc⟩) hl

theorem zipIdx_recast (nodes : List (Node α)) :
    ((nodes.map (recast f)).zipIdx.map fun p => (p.2, p.1)) =
      onNodes (recast f) (nodes.zipIdx.map fun p => (p.2, p.1)) := by
  rw [List.zipIdx_map, List.map_map, onNodes, List.map_map]
  rfl

theorem actorsOf_recast (nodes : List (Node α)) :
    actorsOf (nodes.map (recast f)) = onNodes (recast f) (actorsOf nodes) := by
  rw [actorsOf, zipIdx_recast, filter_onNodes _ fun _ => rfl]
  rfl

theorem casesOf_recast (nodes : List (Node α)) :
    casesOf (nodes.map (recast f)) = onNodes (recast f) (casesOf nodes) := by
  rw [casesOf, zipIdx_recast, filter_onNodes _ fun _ => rfl]
  rfl

theorem linkedHeights_recast {d e : Diagram α} (hn : e.nodes = d.nodes.map (recast f))
    (hj : e.joints = d.joints) (i : Nat) :
    linkedHeights (settleCases s axis e).links i =
      linkedHeights (settleCases s axis d).links i := by
  have hsights :
      (settleCases s axis e).nodes.map sight = (settleCases s axis d).nodes.map sight := by
    rw [settleCases, hn, casesOf_recast, placeCases_recast, map_sight_settle]
    rfl
  rw [linkedHeights_links, linkedHeights_links, joints_settleCases, joints_settleCases, hj, hsights]

theorem placeActors_recast (actors cases : Placement α) {links links' : List (Link α)}
    (h : ∀ i, linkedHeights links' i = linkedHeights links i) :
    placeActors s (onNodes (recast f) actors) (onNodes (recast f) cases) links' =
      onNodes (rename f) (placeActors s actors cases links) := by
  let taken (i : Nat) : Bool := (targets links actors).any (·.index == i)
  have htaken (i : Nat) : ((targets links actors).map (Target.recast f)).any (·.index == i) =
      taken i := List.any_map
  have hwidths := map_onNodes (recast f) (v := Node.width) (fun _ => rfl) actors
  have hheights := map_onNodes (recast f) (v := fun n => n.height + s.rowGap) (fun _ => rfl) cases
  have hends (linked : Placement α) :=
    map_onNodes (rename f) (v := fun n => n.y + n.height) (fun _ => rfl) linked
  have hidle := filter_onNodes (recast f) (q := fun p => !taken p.1) (fun _ => rfl) actors
  simp only [placeActors, targets_recast h, pushDown_recast, htaken, hwidths, hheights, hends,
    hidle, queueUp_recast, onNodes_append]
  rfl

theorem place_recast (s : LayoutSettings α) {d e : Diagram α}
    (hn : e.nodes = d.nodes.map (recast f)) (hj : e.joints = d.joints) :
    place s e = (place s d).map (rename f) := by
  have haxis : axisOf s.useCase (actorsOf e.nodes) (casesOf e.nodes) =
      axisOf s.useCase (actorsOf d.nodes) (casesOf d.nodes) := by
    rw [hn, actorsOf_recast, casesOf_recast, axisOf, axisOf,
      map_onNodes (recast f) (v := Node.width) fun _ => rfl,
      map_onNodes (recast f) (v := Node.width) fun _ => rfl]
  simp only [place_eq]
  rw [haxis, hn, actorsOf_recast, casesOf_recast, placeCases_recast,
    placeActors_recast _ _ _ (linkedHeights_recast s.useCase _ hn hj), ← onNodes_append,
    (covers_parts _ _ _ _).settle_recast, normalize_rename]

end Drafting.Layout.UseCase
