import Drafting.Proofs.Layout.Barycenter
import Drafting.Proofs.Layout.Queue

namespace Drafting

open Scalar

variable {K : Type} [Field K] [LinearOrder K] [FloorSemiring K]

namespace Layout.UseCase

section

variable {α : Type} [Scalar α]

variable (s : UseCaseSettings α) (d : Diagram α)

def caseAxis : α := axisOf s (actorsOf d.nodes) (casesOf d.nodes)

def placedCases : Placement α :=
  placeColumn s.rowGap (fun n => caseAxis s d - n.width / 2) 0 (casesOf d.nodes)

def caseLinks : List (Link α) := (settleCases s (caseAxis s d) d).links

def casesEnd : α :=
  ((casesOf d.nodes).map fun p => p.2.height + s.rowGap).foldl (· + ·) 0 - s.rowGap

def columnOf : α := peak ((actorsOf d.nodes).map fun p => p.2.width)

def pulledActors : Placement α :=
  pushDown s.rowGap (columnOf d) bottom (targets (caseLinks s d) (actorsOf d.nodes))

def lowest : α := ((pulledActors s d).map fun p => p.2.y + p.2.height).foldl greatest (casesEnd s d)

def idleActors : Placement α :=
  placeColumn s.rowGap (fun n => (columnOf d - n.width) / 2) (greatest (lowest s d) 0 + s.rowGap)
    ((actorsOf d.nodes).filter fun p =>
      !(targets (caseLinks s d) (actorsOf d.nodes)).any (·.index == p.1))

def settled : Diagram α :=
  { d with nodes := settle d.nodes (placedCases s d ++ (pulledActors s d ++ idleActors s d)) }

theorem place_eq_normalize (s : LayoutSettings α) :
    place s d = normalize s.padding (settled s.useCase d).nodes := rfl

theorem covers_settled :
    Covers d.nodes (placedCases s d ++ (pulledActors s d ++ idleActors s d)) :=
  covers_parts s (caseAxis s d) d.nodes (caseLinks s d)

theorem map_unplaced_settled :
    (settled s d).nodes.map Node.unplaced = d.nodes.map Node.unplaced :=
  (covers_settled s d).map_unplaced_settle

theorem ids_settled : (settled s d).ids = d.ids := by
  have hids := congrArg (List.map Node.id) (map_unplaced_settled s d)
  rwa [List.map_map, List.map_map] at hids

theorem map_sight_settled : (settled s d).nodes.map sight =
    (settle d.nodes (placedCases s d)).map sight := by
  change (settle d.nodes _).map sight = _
  rw [settle, settle, List.map_map, List.map_map]
  refine List.map_congr_left fun p hp => ?_
  have hn := List.mem_zipIdx_iff_getElem?.1 hp
  rw [Function.comp_apply, Function.comp_apply, List.lookup_append]
  cases hcase : (placedCases s d).lookup p.2 with
  | some m => rfl
  | none =>
      have hactor : isActor p.1 := by
        by_contra hc
        exact (moved_placeCases s _ _).lookup_ne_none (mem_casesOf.2 ⟨hn, hc⟩) hcase
      have hmoved := moved_placeActors s (actorsOf d.nodes) (casesOf d.nodes) (caseLinks s d)
      rw [Option.none_or, Option.getD_none, sight, sight, if_pos hactor]
      cases hm : (pulledActors s d ++ idleActors s d).lookup p.2 with
      | none => exact if_pos hactor
      | some m =>
          obtain ⟨n, hmem, hu⟩ := hmoved.exists_of_lookup hm
          exact if_pos ((isActor_of_unplaced hu).trans (mem_actorsOf.1 hmem).2)

theorem linkedHeights_settled (i : Nat) :
    linkedHeights (settled s d).links i = linkedHeights (caseLinks s d) i := by
  have hjoints : (settled s d).joints = d.joints := Diagram.joints_congr (ids_settled s d) rfl
  rw [caseLinks, linkedHeights_links, linkedHeights_links, hjoints, joints_settleCases,
    map_sight_settled]
  rfl

end

section

variable {s : UseCaseSettings K} {d : Diagram K} {p : Nat × Node K}

theorem caseHeights_settled (hd : d.ids.Nodup) {i : Nat} {n : Node K}
    (hn : (i, n) ∈ actorsOf d.nodes) :
    (settled s d).caseHeights n.id = linkedHeights (caseLinks s d) i := by
  obtain ⟨hn, ha⟩ := mem_actorsOf.1 hn
  have hsame := congrArg (·[i]?) (map_unplaced_settled s d)
  simp only [List.getElem?_map, hn, Option.map_some] at hsame
  obtain ⟨m, hm, hu⟩ := Option.map_eq_some_iff.1 hsame
  have hid : m.unplaced.id = n.unplaced.id := congrArg Node.id hu
  have hm := Diagram.caseHeights_eq_linkedHeights (by rwa [ids_settled]) hm
    ((isActor_of_unplaced hu).trans ha)
  rw [linkedHeights_settled] at hm
  exact (congrArg _ hid.symm).trans hm

theorem target_settled (hd : d.ids.Nodup) {t : Target K}
    (ht : t ∈ targets (caseLinks s d) (actorsOf d.nodes)) (x y : K) :
    (settled s d).target (t.node.placeCorner x y) = t.top := by
  obtain ⟨hmem, _, htop⟩ := mem_targets ht
  rw [Diagram.target_of_unplaced (t.node.unplaced_placeCorner x y), Diagram.target,
    caseHeights_settled hd hmem, htop, mean, total_eq_sum, two_eq]

theorem exists_of_mem_pulledActors (h : p ∈ pulledActors s d) :
    linkedHeights (caseLinks s d) p.1 ≠ [] ∧ ∃ n, (p.1, n) ∈ actorsOf d.nodes ∧
      ∃ y, p.2 = n.placeCorner ((columnOf d - n.width) / 2) y := by
  obtain ⟨t, ht, y, rfl⟩ := exists_of_mem_pushDown h
  obtain ⟨hmem, hlinked, _⟩ := mem_targets ht
  exact ⟨hlinked, t.node, hmem, y, by rw [two_eq]⟩

theorem exists_of_mem_idleActors (h : p ∈ idleActors s d) :
    linkedHeights (caseLinks s d) p.1 = [] ∧ ∃ n, (p.1, n) ∈ actorsOf d.nodes ∧
      ∃ y, p.2 = n.placeCorner ((columnOf d - n.width) / 2) y := by
  obtain ⟨q, hq, y, rfl⟩ := exists_of_mem_placeColumn h
  obtain ⟨hmem, hidle⟩ := List.mem_filter.1 hq
  rw [any_targets _ hmem, Bool.not_not, List.isEmpty_iff] at hidle
  exact ⟨hidle, q.2, hmem, y, by rw [two_eq]⟩

theorem sizedRow_actorsOf (hd : d.Sized) : SizedRow (actorsOf d.nodes) :=
  sizedRow_of_getElem? hd fun _ hp => (mem_actorsOf.1 hp).1

theorem sizedRow_casesOf (hd : d.Sized) : SizedRow (casesOf d.nodes) :=
  sizedRow_of_getElem? hd fun _ hp => (mem_casesOf.1 hp).1

theorem isActor_of_mem_actors (h : p ∈ pulledActors s d ++ idleActors s d) : isActor p.2 := by
  have hmoved := moved_placeActors s (actorsOf d.nodes) (casesOf d.nodes) (caseLinks s d)
  obtain ⟨n, hn, hu⟩ := hmoved.exists_of_mem h
  exact (isActor_of_unplaced hu).trans (mem_actorsOf.1 hn).2

theorem not_isActor_of_mem_placedCases (h : p ∈ placedCases s d) : ¬ isActor p.2 := by
  obtain ⟨n, hn, hu⟩ := (moved_placeCases s _ (casesOf d.nodes)).exists_of_mem h
  rw [isActor_of_unplaced hu]
  exact (mem_casesOf.1 hn).2

theorem box_of_isActor {n : Node K} (h : isActor n) : n.box = ⟨n.x, n.y, n.width, n.height⟩ := by
  have hk : n.kind = .actor := of_decide_eq_true h
  rw [Node.box, hk]
  rfl

variable [IsStrictOrderedRing K]

theorem right_le_columnOf (h : p ∈ pulledActors s d ++ idleActors s d) :
    p.2.box.right ≤ columnOf d := by
  obtain ⟨n, hn, y, he⟩ : ∃ n, (p.1, n) ∈ actorsOf d.nodes ∧
      ∃ y, p.2 = n.placeCorner ((columnOf d - n.width) / 2) y := by
    rcases List.mem_append.1 h with h | h
    · exact (exists_of_mem_pulledActors h).2
    · exact (exists_of_mem_idleActors h).2
  have hw : n.width ≤ columnOf d := le_peak (List.mem_map_of_mem hn)
  rw [he, Node.box_placeCorner, Rect.right]
  dsimp only
  linarith

theorem columnOf_le_left (hc : 0 ≤ s.columnGap) (h : p ∈ placedCases s d) :
    columnOf d ≤ p.2.box.x := by
  obtain ⟨q, hq, y, rfl⟩ := exists_of_mem_placeColumn h
  have hw : q.2.width ≤ peak ((casesOf d.nodes).map fun p => p.2.width) :=
    le_peak (List.mem_map_of_mem hq)
  rw [Node.box_placeCorner, caseAxis, axisOf, two_eq]
  change columnOf d ≤ columnOf d + _ + _ / 2 - _ / 2
  linarith

theorem bottom_le_casesEnd (hd : d.Sized) (hg : 0 ≤ s.rowGap) :
    ∀ p ∈ placedCases s d, p.2.box.bottom ≤ casesEnd s d := by
  intro p hp
  have hcases := ((queued_placeColumn hg (sizedRow_casesOf hd) _).2 p hp).2
  rw [zero_eq, zero_add] at hcases
  rw [casesEnd, zero_eq, ← List.sum_eq_foldl]
  exact le_sub_iff_add_le.2 hcases

theorem bottom_le_lowest (hd : d.Sized) (hg : 0 ≤ s.rowGap)
    (h : p ∈ placedCases s d ++ pulledActors s d) : p.2.box.bottom ≤ lowest s d := by
  obtain ⟨hcases, hactors⟩ :=
    le_foldl_greatest ((pulledActors s d).map fun p => p.2.y + p.2.height) (casesEnd s d)
  rcases List.mem_append.1 h with h | h
  · exact (bottom_le_casesEnd hd hg p h).trans hcases
  · have hbox := box_of_isActor (isActor_of_mem_actors (List.mem_append_left (idleActors s d) h))
    rw [hbox]
    exact hactors _ (List.mem_map_of_mem h)

theorem bottom_add_le_idleActors (hd : d.Sized) (hg : 0 ≤ s.rowGap)
    (hp : p ∈ placedCases s d ++ pulledActors s d) {q : Nat × Node K} (hq : q ∈ idleActors s d) :
    p.2.box.bottom + s.rowGap ≤ q.2.box.y := by
  have hrow : SizedRow ((actorsOf d.nodes).filter fun p =>
      !(targets (caseLinks s d) (actorsOf d.nodes)).any (·.index == p.1)) :=
    fun p hp => sizedRow_actorsOf hd p (List.mem_of_mem_filter hp)
  have htop := ((queued_placeColumn hg hrow _).2 q hq).1
  refine (add_le_add_left ((bottom_le_lowest hd hg hp).trans ?_) _).trans htop
  rw [greatest_eq_max]
  exact le_max_left _ _

theorem pairwise_apart_settled (hd : d.Sized) (hc : 0 ≤ s.columnGap) (hg : 0 ≤ s.rowGap) :
    (placedCases s d ++ (pulledActors s d ++ idleActors s d)).Pairwise fun p q =>
      p.2.box.Apart q.2.box := by
  have hcases : Queued s.rowGap (placedCases s d) :=
    (queued_placeColumn hg (sizedRow_casesOf hd) _).1
  have hpulled : Queued s.rowGap (pulledActors s d) := by
    refine (queued_pushDown hg (fun t ht => ?_) none).1
    exact (sizedRow_actorsOf hd _ (mem_targets ht).1).2
  have hidle : Queued s.rowGap (idleActors s d) :=
    (queued_placeColumn hg (fun p hp => sizedRow_actorsOf hd p (List.mem_of_mem_filter hp)) _).1
  refine List.pairwise_append.2 ⟨hcases.pairwise_apart hg, List.pairwise_append.2
    ⟨hpulled.pairwise_apart hg, hidle.pairwise_apart hg, ?_⟩, ?_⟩
  · intro p hp q hq
    refine Rect.apart_of_bottom_le ((le_add_of_nonneg_right hg).trans ?_)
    exact bottom_add_le_idleActors hd hg (List.mem_append_right _ hp) hq
  · intro p hp q hq
    refine (Rect.apart_of_right_le ?_).symm
    exact (right_le_columnOf hq).trans (columnOf_le_left hc hp)

end

section

variable {s : UseCaseSettings K} {d : Diagram K} {p : Nat × Node K}

theorem isLinked_settled (hd : d.ids.Nodup) (h : p ∈ pulledActors s d ++ idleActors s d) :
    (settled s d).IsLinked p.2 ↔ linkedHeights (caseLinks s d) p.1 ≠ [] := by
  have hmoved := moved_placeActors s (actorsOf d.nodes) (casesOf d.nodes) (caseLinks s d)
  obtain ⟨n, hn, hu⟩ := hmoved.exists_of_mem h
  have hid : p.2.unplaced.id = n.unplaced.id := congrArg Node.id hu
  have hkind : p.2.kind = .actor := of_decide_eq_true (isActor_of_mem_actors h)
  rw [Diagram.IsLinked, show p.2.id = n.id from hid, caseHeights_settled hd hn]
  exact and_iff_right hkind

theorem mem_actors_iff {i : Nat} {n : Node K} :
    (i, n) ∈ pulledActors s d ++ idleActors s d ↔
      (settled s d).nodes[i]? = some n ∧ n.kind = .actor := by
  constructor
  · intro h
    exact ⟨(covers_settled s d).getElem?_settle (List.mem_append_right (placedCases s d) h),
      of_decide_eq_true (isActor_of_mem_actors h)⟩
  · rintro ⟨hn, hk⟩
    refine (List.mem_append.1 ((covers_settled s d).mem_of_getElem?_settle hn)).resolve_left ?_
    exact fun h => not_isActor_of_mem_placedCases h (decide_eq_true hk)

theorem mem_pulledActors_iff (hd : d.ids.Nodup) (i : Nat) (n : Node K) :
    (i, n) ∈ pulledActors s d ↔
      (settled s d).nodes[i]? = some n ∧ (settled s d).IsLinked n := by
  constructor
  · intro h
    have hactor := List.mem_append_left (idleActors s d) h
    exact ⟨(mem_actors_iff.1 hactor).1,
      (isLinked_settled hd hactor).2 (exists_of_mem_pulledActors h).1⟩
  · rintro ⟨hn, hl⟩
    have hactor := mem_actors_iff.2 ⟨hn, hl.1⟩
    refine (List.mem_append.1 hactor).resolve_right fun h => ?_
    exact (isLinked_settled hd hactor).1 hl (exists_of_mem_idleActors h).1

theorem mem_idleActors_iff (hd : d.ids.Nodup) (i : Nat) (n : Node K) :
    (i, n) ∈ idleActors s d ↔
      (settled s d).nodes[i]? = some n ∧ n.kind = .actor ∧ ¬ (settled s d).IsLinked n := by
  constructor
  · intro h
    have hactor := List.mem_append_right (pulledActors s d) h
    obtain ⟨hn, hk⟩ := mem_actors_iff.1 hactor
    exact ⟨hn, hk, fun hl => (isLinked_settled hd hactor).1 hl (exists_of_mem_idleActors h).1⟩
  · rintro ⟨hn, hk, hl⟩
    refine (List.mem_append.1 (mem_actors_iff.2 ⟨hn, hk⟩)).resolve_left fun h => ?_
    exact hl ((mem_pulledActors_iff hd i n).1 h).2

theorem pushesDown_settled (hd : d.ids.Nodup) :
    (settled s d).PushesDown s.rowGap (pulledActors s d) := by
  let target (p : Nat × Node K) : K := (settled s d).target p.2
  let rank (p : Nat × Node K) : K × Nat := (target p, p.1)
  let above (a b : K × Nat) : Prop := a.1 < b.1 ∨ a.1 = b.1 ∧ a.2 < b.2
  have htarget : ∀ t ∈ targets (caseLinks s d) (actorsOf d.nodes), ∀ x y,
      target (t.index, t.node.placeCorner x y) = t.top := fun t ht => target_settled hd ht
  have hsorted : ((pulledActors s d).map rank).Pairwise above := by
    have hrank : (pulledActors s d).map rank =
        (targets (caseLinks s d) (actorsOf d.nodes)).map fun t => (t.top, t.index) :=
      map_pushDown (fun t ht x y => congrArg (·, t.index) (htarget t ht x y)) _ _ _
    rw [hrank]
    exact List.pairwise_map.2 (targets_sorted (caseLinks s d) d.nodes)
  obtain ⟨hfirst, hnext⟩ := pushDown_chain htarget none
  exact ⟨mem_pulledActors_iff hd, List.pairwise_map.1 hsorted, hfirst, hnext⟩

theorem bottom_add_le_settled [IsStrictOrderedRing K] (hi : d.ids.Nodup) (hd : d.Sized)
    (hg : 0 ≤ s.rowGap) : ∀ m ∈ (settled s d).nodes, m.kind = .actor → ¬ (settled s d).IsLinked m →
      ∀ n ∈ (settled s d).nodes, n.kind ≠ .actor ∨ (settled s d).IsLinked n →
        n.box.bottom + s.rowGap ≤ m.box.y := by
  intro m hm hk hidle n hn hother
  obtain ⟨i, hm⟩ := List.mem_iff_getElem?.1 hm
  obtain ⟨j, hn⟩ := List.mem_iff_getElem?.1 hn
  have hq := (mem_idleActors_iff hi i m).2 ⟨hm, hk, hidle⟩
  have hp : (j, n) ∈ placedCases s d ++ pulledActors s d := by
    have hmem := (covers_settled s d).mem_of_getElem?_settle hn
    rw [← List.append_assoc] at hmem
    refine (List.mem_append.1 hmem).resolve_right fun h => ?_
    obtain ⟨_, hka, hl⟩ := (mem_idleActors_iff hi j n).1 h
    exact hother.elim (absurd hka) hl
  exact bottom_add_le_idleActors hd hg hp hq

end

end Layout.UseCase

open Layout

/-- In a diagram of use cases no two boxes overlap. From the highest target down each linked actor
has its top at its target or, if that is lower, a gap below the linked actor before it. The other
actors are below all that is not one of them. -/
theorem Diagram.useCase_layout_targets [IsStrictOrderedRing K] (s : LayoutSettings K)
    (d : Diagram K) (hk : d.kind = .useCase) (hi : d.ids.Nodup) (hd : d.Sized)
    (hc : 0 ≤ s.useCase.columnGap) (hg : 0 ≤ s.useCase.rowGap) :
    let e := d.layout s
    e.unplaced = d.unplaced ∧ (e.nodes.Pairwise fun m n => m.box.Apart n.box) ∧
      (∃ order, e.PushesDown s.useCase.rowGap order) ∧
      ∀ m ∈ e.nodes, m.kind = .actor → ¬ e.IsLinked m → ∀ n ∈ e.nodes,
        n.kind ≠ .actor ∨ e.IsLinked n → n.box.bottom + s.useCase.rowGap ≤ m.box.y := by
  intro e
  obtain ⟨dx, dy, hn⟩ := exists_normalize_eq s.padding (UseCase.settled s.useCase d).nodes
  have hplace : e.nodes = (UseCase.settled s.useCase d).nodes.map (Node.shift dx dy) := by
    rw [show e.nodes = place s d from hd.nodes_layout s, place, hk]
    exact (UseCase.place_eq_normalize d s).trans hn
  have he : e = (UseCase.settled s.useCase d).shift dx dy :=
    congrArg (fun nodes => { d with nodes }) hplace
  have hcovers := UseCase.covers_settled s.useCase d
  refine ⟨hd.unplaced_layout s, ?_⟩
  rw [he]
  refine ⟨?_, ⟨_, (UseCase.pushesDown_settled hi).shift dx dy⟩, ?_⟩
  · rw [Diagram.shift, pairwise_apart_map_shift]
    refine pairwise_apart_of_perm hcovers.settle_perm.symm ?_
    exact List.pairwise_map.2 (UseCase.pairwise_apart_settled hd hc hg)
  · intro m hm hactor hidle n hn hother
    obtain ⟨m, hidler, rfl⟩ := List.mem_map.1 hm
    obtain ⟨n, hoccupier, rfl⟩ := List.mem_map.1 hn
    rw [isLinked_shift] at hidle hother
    have hle := UseCase.bottom_add_le_settled hi hd hg m hidler hactor hidle n hoccupier hother
    rw [Node.box_shift, Node.box_shift, Rect.y_shift, Rect.bottom_shift, add_right_comm]
    exact add_le_add_left hle dy

def Diagram.linkedActors : Diagram ℚ where
  kind := .useCase
  nodes :=
    [⟨"node-1", .actor, 0, 0, 80, 100, "Clerk", none⟩,
      ⟨"node-2", .useCase, 0, 0, 140, 60, "Sell", none⟩,
      ⟨"node-3", .actor, 0, 0, 1 / 3, 100, "Cook", none⟩,
      ⟨"node-4", .actor, 0, 0, 80, 5, "Buyer", none⟩,
      ⟨"node-5", .useCase, 0, 0, 200, 30, "Serve", none⟩,
      ⟨"node-6", .actor, 0, 0, 80, 40, "Guest", none⟩]
  edges :=
    [⟨"edge-1", "node-1", "node-2", none, some .association, none⟩,
      ⟨"edge-2", "node-2", "node-1", none, some .association, none⟩,
      ⟨"edge-3", "node-4", "node-2", none, some .association, none⟩,
      ⟨"edge-4", "node-4", "node-5", none, some .association, none⟩,
      ⟨"edge-5", "node-3", "node-6", none, some .association, none⟩]
  title := none
  skipped := []
  unresolved := []

theorem Diagram.linkedActors_layout_targets :
    let e := Diagram.linkedActors.layout .dense
    Diagram.linkedActors.kind = .useCase ∧ Diagram.linkedActors.ids.Nodup ∧
      Diagram.linkedActors.Sized ∧ 0 ≤ LayoutSettings.dense.useCase.columnGap ∧
      0 ≤ LayoutSettings.dense.useCase.rowGap ∧
      e.unplaced = Diagram.linkedActors.unplaced ∧
      (e.nodes.Pairwise fun m n => m.box.Apart n.box) ∧ (∃ order, e.PushesDown (1 / 2) order) ∧
      ∀ m ∈ e.nodes, m.kind = .actor → ¬ e.IsLinked m → ∀ n ∈ e.nodes,
        n.kind ≠ .actor ∨ e.IsLinked n → n.box.bottom + 1 / 2 ≤ m.box.y := by
  have hk : Diagram.linkedActors.kind = .useCase := by decide
  have hi : Diagram.linkedActors.ids.Nodup := by decide
  have hd : Diagram.linkedActors.Sized := by decide +kernel
  have hc : (0 : ℚ) ≤ 0 := le_rfl
  have hg : (0 : ℚ) ≤ 1 / 2 := by decide +kernel
  exact ⟨hk, hi, hd, hc, hg,
    Diagram.useCase_layout_targets .dense Diagram.linkedActors hk hi hd hc hg⟩

end Drafting
