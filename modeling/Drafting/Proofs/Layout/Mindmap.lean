import Mathlib.Tactic.Linarith
import Mathlib.Tactic.Ring
import Drafting.Proofs.Layout.Boxes

namespace Drafting

open Scalar

variable {K : Type} [Field K] [LinearOrder K] [FloorSemiring K]

namespace Forest

def descendants : Forest → List Nat
  | nil => []
  | cons _ children siblings => children.nodes ++ siblings.descendants

theorem nodes_perm (f : Forest) : f.nodes.Perm (f.roots ++ f.descendants) := by
  induction f with
  | nil => rfl
  | cons i children siblings _ ih =>
      rw [nodes, roots, descendants, List.cons_append, List.perm_cons]
      exact (ih.append_left _).trans (List.perm_append_comm_assoc _ _ _)

theorem flatMap_nodes_perm (trees : List Forest) :
    (trees.flatMap nodes).Perm (trees.flatMap roots ++ trees.flatMap descendants) :=
  (List.Perm.flatMap_left trees fun f _ => f.nodes_perm).trans
    (List.flatMap_append_perm trees roots descendants).symm

theorem not_mem_roots_of_mem_descendants {trees : List Forest} (h : (trees.flatMap nodes).Nodup)
    {tree : Forest} (ht : tree ∈ trees) {i : Nat} (hi : i ∈ tree.descendants) :
    i ∉ trees.flatMap roots := by
  have hd := (List.nodup_append'.1 ((flatMap_nodes_perm trees).nodup_iff.1 h)).2.2
  exact fun hr => hd hr (List.mem_flatMap.2 ⟨tree, ht, hi⟩)

end Forest

namespace Layout.Mindmap

section

variable {α : Type} [Scalar α]

def placeForest (nodes : List (Node α)) (unit direction : α) (columns : List α) (top : α)
    (f : Forest) : Placement α :=
  placeBand nodes unit (direction * columns.headD 0) top f ++
    placeFamilies nodes unit direction columns.tail top f

theorem placeForest_cons_perm (nodes : List (Node α)) (unit direction top : α) (columns : List α)
    (i : Nat) (children siblings : Forest) :
    (placeForest nodes unit direction columns top (.cons i children siblings)).Perm
      (((pick nodes [i]).map fun p => (p.1,
          p.2.placeCenter (direction * columns.headD 0) (top + span unit children / 2))) ++
        placeForest nodes unit direction columns.tail top children ++
        placeForest nodes unit direction columns (top + span unit children) siblings) := by
  -- A family is placed after the siblings that follow its parent.
  simp only [placeForest, placeBand, placeFamilies, List.append_assoc]
  refine List.Perm.append_left _ ?_
  simp only [← List.append_assoc]
  rw [List.append_assoc]
  exact List.perm_append_comm.trans (.of_eq (List.append_assoc _ _ _).symm)

end

variable {nodes : List (Node K)}

def Within (nodes : List (Node K)) : List K → Forest → Prop
  | _, .nil => True
  | [], .cons _ _ _ => False
  | w :: ws, .cons i children siblings =>
      widthOf nodes i ≤ w ∧ Within nodes ws children ∧ Within nodes (w :: ws) siblings

/-- Columns that are widened for more trees still hold what they held. -/
theorem Within.mono_widen {ws : List K} {f : Forest} (h : Within nodes ws f) (other : Forest) :
    Within nodes (widen nodes other ws) f := by
  induction other generalizing ws f with
  | nil => exact h
  | cons i children siblings ihc ihs =>
      have hrow := ihs h
      rw [widen]
      generalize widen nodes siblings ws = row at hrow
      clear h
      induction f with
      | nil => simp [Within]
      | cons j below rest _ ihr =>
          cases row with
          | nil => exact hrow.elim
          | cons w row =>
              obtain ⟨hj, hb, hr⟩ := hrow
              refine ⟨hj.trans ?_, ihc hb, ihr hr⟩
              rw [greatest_eq_max]
              exact le_max_left w _

theorem within_widen (nodes : List (Node K)) (f : Forest) (ws : List K) :
    Within nodes (widen nodes f ws) f := by
  induction f generalizing ws with
  | nil => simp [Within]
  | cons i children siblings ihc ihs =>
      refine ⟨?_, ihc _, (ihs ws).mono_widen (.cons i children .nil)⟩
      rw [greatest_eq_max]
      exact le_max_right _ _

theorem widthOf_nonneg (h : ∀ n ∈ nodes, 0 ≤ n.width) (i : Nat) : 0 ≤ widthOf nodes i := by
  rw [widthOf]
  split
  next n hn => exact h n (List.mem_of_getElem? hn)
  next => exact zero_eq.ge

theorem span_add_weight_mul (unit : K) (i : Nat) (children siblings : Forest) :
    span unit children + siblings.weight * unit =
      (Forest.cons i children siblings).weight * unit := by
  rw [span, Forest.weight, Nat.cast_add, add_mul]

/-- Columns for boxes of the given widths: each begins no nearer than the one before it ends, the
first no nearer than the edge. -/
def Spaced : K → List K → List K → Prop
  | _, _, [] => True
  | _, [], _ :: _ => False
  | edge, c :: cs, w :: ws => edge + w / 2 ≤ c ∧ Spaced (c + w / 2) cs ws

structure InBand (direction edge top bottom : K) (r : Rect K) : Prop where
  edge : edge + r.width / 2 ≤ direction * r.center.x
  top : top ≤ r.y
  bottom : r.bottom ≤ bottom

structure Banded (direction edge top bottom : K) (placed : Placement K) : Prop where
  inBand : ∀ p ∈ placed, InBand direction edge top bottom p.2.box
  apart : placed.Pairwise fun p q => p.2.box.Apart q.2.box

theorem offsets_eq_cons (start : K) {steps : List K} (h : steps ≠ []) :
    offsets start steps = start :: (offsets start steps).drop 1 := by
  obtain ⟨step, rest, rfl⟩ := List.exists_cons_of_ne_nil h
  rfl

variable {direction edge top bottom : K}

namespace Banded

variable {placed others : Placement K} {middle : K}

theorem perm (h : Banded direction edge top bottom placed) (hp : placed.Perm others) :
    Banded direction edge top bottom others where
  inBand p hm := h.inBand p (hp.mem_iff.2 hm)
  apart := h.apart.perm hp Rect.Apart.symm

theorem mono (h : Banded direction edge top middle placed) (hb : middle ≤ bottom) :
    Banded direction edge top bottom placed where
  inBand p hm := ⟨(h.inBand p hm).edge, (h.inBand p hm).top, (h.inBand p hm).bottom.trans hb⟩
  apart := h.apart

theorem append_below (h : Banded direction edge top middle placed)
    (h' : Banded direction edge middle bottom others) (ht : top ≤ middle) (hb : middle ≤ bottom) :
    Banded direction edge top bottom (placed ++ others) where
  inBand p hm := by
    rcases List.mem_append.1 hm with hm | hm
    · exact (h.mono hb).inBand p hm
    · have hp := h'.inBand p hm
      exact ⟨hp.edge, ht.trans hp.top, hp.bottom⟩
  apart := by
    refine List.pairwise_append.2 ⟨h.apart, h'.apart, fun p hp q hq => ?_⟩
    exact Rect.apart_of_bottom_le ((h.inBand p hp).bottom.trans (h'.inBand q hq).top)

end Banded

theorem between_of_extent_placeTree [IsOrderedAddMonoid K] {s : MindmapSettings K}
    (hh : ∀ n ∈ nodes, 0 ≤ n.height) {root : Nat} {children : Forest} {r : Rect K}
    (he : Node.extent ((placeTree s nodes root children).map Prod.snd) = some r) :
    r.y ≤ r.bottom ∧
      ∀ p ∈ placeTree s nodes root children, r.y ≤ p.2.box.y ∧ p.2.box.bottom ≤ r.bottom := by
  have hull : r.IsHull (((placeTree s nodes root children).map Prod.snd).map Node.box) :=
    Rect.isHull_of_enclosing? he
  have hin : ∀ p ∈ placeTree s nodes root children,
      r.y ≤ p.2.box.y ∧ p.2.box.bottom ≤ r.bottom := fun p hp =>
    (hull.mem (List.mem_map_of_mem (List.mem_map_of_mem hp))).2
  obtain ⟨p, hp⟩ : ∃ p, p ∈ placeTree s nodes root children :=
    List.exists_mem_of_ne_nil _ fun hn => by simp [hn, Node.extent, Rect.enclosing?] at he
  have hheight : 0 ≤ p.2.box.height := by
    obtain ⟨n, hn, hu⟩ := (moved_placeTree s nodes root children).exists_of_mem hp
    have heq : p.2.unplaced.height = n.unplaced.height := congrArg Node.height hu
    rw [p.2.height_box]
    exact (hh n (List.mem_of_getElem? (mem_pick.1 hn).2)).trans_eq heq.symm
  obtain ⟨hy, hb⟩ := hin p hp
  exact ⟨hy.trans ((le_add_of_nonneg_right hheight).trans hb), hin⟩

variable [IsStrictOrderedRing K]

theorem spaced_columns (s : MindmapSettings K) (rootWidth : K) (ws : List K) :
    Spaced (rootWidth / 2) (columns s rootWidth ws) ws := by
  have hspaced (start w : K) : Spaced (start + w / 2)
      ((offsets start (columnSteps s.horizontalStep (w :: ws) ++ [0])).drop 1) ws := by
    induction ws generalizing start w with
    | nil => exact trivial
    | cons v ws ih =>
        let step := greatest s.horizontalStep (w / 2 + v / 2 + ((40 : Nat) : K))
        have hstep : w / 2 + v / 2 ≤ step := by
          rw [show step = max _ _ from greatest_eq_max _ _]
          exact (le_add_of_nonneg_right (Nat.cast_nonneg 40)).trans (le_max_right _ _)
        have hnext : (offsets start (columnSteps s.horizontalStep (w :: v :: ws) ++ [0])).drop 1 =
            offsets (start + step) (columnSteps s.horizontalStep (v :: ws) ++ [0]) := by
          rw [columnSteps, two_eq]
          rfl
        rw [hnext, offsets_eq_cons _ (by simp)]
        refine ⟨?_, ih (start + step) v⟩
        linarith
  have h := hspaced 0 rootWidth
  rw [zero_add] at h
  rw [columns, zero_eq]
  exact h

theorem apart_of_edge (hd : direction = 1 ∨ direction = -1) {r s : Rect K}
    (hr : direction * r.center.x + r.width / 2 ≤ edge)
    (hs : edge + s.width / 2 ≤ direction * s.center.x) : r.Apart s := by
  rw [Rect.center] at hr hs
  rw [Rect.apart_iff, Rect.right, Rect.right]
  left
  rcases hd with rfl | rfl
  · left
    linarith
  · right
    linarith

theorem Banded.append_beyond (hd : direction = 1 ∨ direction = -1)
    {placed others : Placement K} (h : Banded direction edge top bottom placed) {outer : K}
    (hp : ∀ p ∈ placed, direction * p.2.box.center.x + p.2.box.width / 2 ≤ outer)
    (h' : Banded direction outer top bottom others) (ho : edge ≤ outer) :
    Banded direction edge top bottom (placed ++ others) where
  inBand q hm := by
    rcases List.mem_append.1 hm with hm | hm
    · exact h.inBand q hm
    · have hq := h'.inBand q hm
      exact ⟨(add_le_add_left ho _).trans hq.edge, hq.top, hq.bottom⟩
  apart := by
    refine List.pairwise_append.2 ⟨h.apart, h'.apart, fun p hm q hq => ?_⟩
    exact apart_of_edge hd (hp p hm) (h'.inBand q hq).edge

theorem banded_parent (hd : direction = 1 ∨ direction = -1) {i : Nat} {c w height : K}
    (hi : widthOf nodes i ≤ w) (hc : edge + w / 2 ≤ c)
    (hh : ∀ n, nodes[i]? = some n → n.height ≤ height) (top : K) :
    let placed := (pick nodes [i]).map fun p =>
      (p.1, p.2.placeCenter (direction * c) (top + height / 2))
    Banded direction edge top (top + height) placed ∧
      ∀ p ∈ placed, direction * p.2.box.center.x + p.2.box.width / 2 ≤ c + w / 2 := by
  intro placed
  cases hn : nodes[i]? with
  | none =>
      rw [show placed = [] by simp [placed, pick, hn]]
      exact ⟨⟨by simp, by simp⟩, by simp⟩
  | some n =>
      have hwidth : n.width ≤ w := by simpa [widthOf, hn] using hi
      have hheight := hh n hn
      let m := n.placeCenter (direction * c) (top + height / 2)
      have hbox : m.box = ⟨direction * c - n.width / 2, top + height / 2 - n.height / 2, n.width,
          n.height⟩ := n.box_placeCenter _ _
      have hcenter : direction * m.box.center.x = c := by
        rw [hbox, Rect.center]
        dsimp only
        rw [two_eq, sub_add_cancel]
        rcases hd with rfl | rfl <;> ring
      have hone : placed = [(i, m)] := by simp [placed, pick, hn, m]
      rw [hone]
      refine ⟨⟨?_, List.pairwise_singleton _ _⟩, ?_⟩
      · rw [List.forall_mem_singleton]
        refine ⟨?_, ?_, ?_⟩
        · rw [hcenter, hbox]
          dsimp only
          linarith
        · rw [hbox]
          dsimp only
          linarith
        · rw [hbox, Rect.bottom]
          dsimp only
          linarith
      · rw [List.forall_mem_singleton, hcenter, hbox]
        dsimp only
        linarith

section

variable {unit : K} (hu : 0 ≤ unit) (children siblings : Forest)

include hu

theorem unit_le_span : unit ≤ span unit children := by
  rw [span]
  exact le_mul_of_one_le_left hu (Nat.one_le_cast.2 (le_max_left _ _))

theorem weight_mul_le_span : children.weight * unit ≤ span unit children := by
  rw [span]
  exact mul_le_mul_of_nonneg_right (Nat.cast_le.2 (le_max_right _ _)) hu

theorem span_le_weight_mul (i : Nat) :
    span unit children ≤ (Forest.cons i children siblings).weight * unit := by
  rw [← span_add_weight_mul]
  exact le_add_of_nonneg_right (mul_nonneg (Nat.cast_nonneg _) hu)

end

theorem banded_placeForest {unit : K} (hd : direction = 1 ∨ direction = -1) (hu : 0 ≤ unit)
    (hw : ∀ n ∈ nodes, 0 ≤ n.width) {f : Forest} {ws columns : List K} (hws : Within nodes ws f)
    (hcs : Spaced edge columns ws)
    (hh : ∀ i ∈ f.nodes, ∀ n, nodes[i]? = some n → n.height ≤ unit) (top : K) :
    Banded direction edge top (top + f.weight * unit)
      (placeForest nodes unit direction columns top f) := by
  induction f generalizing ws columns edge top with
  | nil => exact ⟨by simp [placeForest, placeBand, placeFamilies],
      by simp [placeForest, placeBand, placeFamilies]⟩
  | cons i children siblings ihc ihs =>
      obtain ⟨w, ws, rfl⟩ : ∃ v vs, ws = v :: vs := by
        cases ws with
        | nil => exact hws.elim
        | cons v vs => exact ⟨v, vs, rfl⟩
      obtain ⟨c, cs, rfl⟩ : ∃ b bs, columns = b :: bs := by
        cases columns with
        | nil => exact hcs.elim
        | cons b bs => exact ⟨b, bs, rfl⟩
      obtain ⟨hi, hc, hs⟩ := hws
      have hside : Spaced edge (c :: cs) (w :: ws) := hcs
      obtain ⟨hedge, hcs⟩ := hcs
      have hchildren := (ihc hc hcs (fun j hj => hh j (by simp [Forest.nodes, hj])) top).mono
        (add_le_add_right (weight_mul_le_span hu children) top)
      have hsiblings := ihs (show Within nodes (w :: ws) siblings from hs) hside
        (fun j hj => hh j (by simp [Forest.nodes, hj])) (top + span unit children)
      rw [add_assoc, span_add_weight_mul unit i children siblings] at hsiblings
      obtain ⟨hparent, hreach⟩ := banded_parent hd (hi : widthOf nodes i ≤ w) hedge
        (fun n hn => (hh i (by simp [Forest.nodes]) n hn).trans (unit_le_span hu children)) top
      have hwide : 0 ≤ w := (widthOf_nonneg hw i).trans hi
      have hspan : 0 ≤ span unit children := hu.trans (unit_le_span hu children)
      have hfamily := hparent.append_beyond hd hreach hchildren (by linarith)
      refine Banded.perm ?_ (placeForest_cons_perm nodes unit direction top (c :: cs) i children
        siblings).symm
      exact hfamily.append_below hsiblings (le_add_of_nonneg_right hspan)
        (add_le_add_right (span_le_weight_mul hu children siblings i) top)

theorem exists_banded_placeSide (s : MindmapSettings K) (hd : direction = 1 ∨ direction = -1)
    (hu : 0 ≤ s.unitHeight) (hw : ∀ n ∈ nodes, 0 ≤ n.width) (root : Nat) {side : Forest}
    (hh : ∀ i ∈ side.nodes, ∀ n, nodes[i]? = some n → n.height ≤ s.unitHeight) :
    ∃ top bottom, Banded direction (widthOf nodes root / 2) top bottom
      (placeSide s nodes root direction side) :=
  ⟨_, _, banded_placeForest hd hu hw (within_widen nodes side []) (spaced_columns s _ _) hh _⟩

theorem pairwise_apart_placeTree (s : MindmapSettings K) (hu : 0 ≤ s.unitHeight)
    (hw : ∀ n ∈ nodes, 0 ≤ n.width) (root : Nat) {children : Forest}
    (hh : ∀ i ∈ children.nodes, ∀ n, nodes[i]? = some n → n.height ≤ s.unitHeight) :
    (placeTree s nodes root children).Pairwise fun p q => p.2.box.Apart q.2.box := by
  let half := (children.roots.length + 1) / 2
  have hnodes := Forest.nodes_take_append_drop half children
  obtain ⟨_, _, hright⟩ := exists_banded_placeSide s (.inl rfl) hu hw root fun i hi =>
    hh i (hnodes ▸ List.mem_append_left _ hi)
  obtain ⟨_, _, hleft⟩ := exists_banded_placeSide s (.inr rfl) hu hw root fun i hi =>
    hh i (hnodes ▸ List.mem_append_right _ hi)
  have hwide := widthOf_nonneg hw root
  have hmiddle : ∀ p ∈ (pick nodes [root]).map fun p => (p.1, p.2.placeCenter 0 0),
      p.2.box.center.x = 0 ∧ p.2.box.width = widthOf nodes root := by
    rw [List.forall_mem_map]
    intro p hp
    obtain ⟨hi, hn⟩ := mem_pick.1 hp
    rw [List.mem_singleton.1 hi] at hn
    rw [Node.box_placeCenter, Rect.center, widthOf, hn]
    exact ⟨by rw [two_eq, sub_add_cancel], rfl⟩
  rw [placeTree, zero_eq, one_eq]
  refine List.pairwise_append.2 ⟨?_, List.pairwise_append.2 ⟨hright.apart, hleft.apart, ?_⟩, ?_⟩
  · cases hn : nodes[root]? <;> simp [pick, hn]
  · intro p hp q hq
    have hpe := (hright.inBand p hp).edge
    refine apart_of_edge (.inr rfl) ?_ (hleft.inBand q hq).edge
    linarith
  · intro p hp q hq
    obtain ⟨hx, hwp⟩ := hmiddle p hp
    rcases List.mem_append.1 hq with hq | hq
    · refine apart_of_edge (.inl rfl) ?_ (hright.inBand q hq).edge
      rw [hx, hwp]
      linarith
    · refine apart_of_edge (.inr rfl) ?_ (hleft.inBand q hq).edge
      rw [hx, hwp]
      linarith

theorem between_shift_placeTree {s : MindmapSettings K} (hh : ∀ n ∈ nodes, 0 ≤ n.height)
    {root : Nat} {children : Forest} {r : Rect K}
    (he : Node.extent ((placeTree s nodes root children).map Prod.snd) = some r) (top : K) :
    top ≤ r.bottom + (top - r.y) ∧
      ∀ p ∈ onNodes (Node.shift 0 (top - r.y)) (placeTree s nodes root children),
        top ≤ p.2.box.y ∧ p.2.box.bottom ≤ r.bottom + (top - r.y) := by
  obtain ⟨hr, hin⟩ := between_of_extent_placeTree hh he
  refine ⟨by linarith, ?_⟩
  rw [onNodes, List.forall_mem_map]
  intro p hp
  obtain ⟨hy, hb⟩ := hin p hp
  rw [Node.box_shift, Rect.y_shift, Rect.bottom_shift]
  exact ⟨by linarith, add_le_add_left hb _⟩

theorem pairwise_apart_stack (s : MindmapSettings K) (hu : 0 ≤ s.unitHeight)
    (hs : ∀ n ∈ nodes, 0 ≤ n.width ∧ 0 ≤ n.height) {trees : List Forest}
    (hh : ∀ tree ∈ trees, ∀ i ∈ tree.descendants, ∀ n, nodes[i]? = some n →
      n.height ≤ s.unitHeight) (top : K) :
    ((stack s nodes top trees).Pairwise fun p q => p.2.box.Apart q.2.box) ∧
      ∀ p ∈ stack s nodes top trees, top ≤ p.2.box.y := by
  induction trees generalizing top with
  | nil => simp [stack]
  | cons tree trees ih =>
      obtain ⟨htree, hrest⟩ := List.forall_mem_cons.1 hh
      cases tree with
      | nil => exact ih hrest top
      | cons root children siblings =>
          have hapart := pairwise_apart_placeTree s hu (fun n hn => (hs n hn).1) root
            fun i hi => htree i (List.mem_append_left _ hi)
          rw [stack]
          cases he : Node.extent ((placeTree s nodes root children).map Prod.snd) with
          | none => exact ih hrest top
          | some r =>
              obtain ⟨hend, hin⟩ := between_shift_placeTree (fun n hn => (hs n hn).2) he top
              obtain ⟨hbelow, htop⟩ := ih hrest (r.bottom + (top - r.y) + s.unitHeight)
              -- The second half of the statement keeps all later trees below this one.
              have hnext : r.bottom + (top - r.y) ≤ r.bottom + (top - r.y) + s.unitHeight :=
                le_add_of_nonneg_right hu
              simp only [Node.shift_zero_left]
              refine ⟨List.pairwise_append.2
                ⟨(pairwise_apart_onNodes_shift _ _).2 hapart, hbelow, fun p hp q hq => ?_⟩, ?_⟩
              · exact Rect.apart_of_bottom_le ((hin p hp).2.trans (hnext.trans (htop q hq)))
              · intro p hp
                rcases List.mem_append.1 hp with hp | hp
                · exact (hin p hp).1
                · exact hend.trans (hnext.trans (htop p hp))

end Layout.Mindmap

open Layout

/-- In a mind map no two boxes overlap if no node but those at which trees begin is higher than a
unit. -/
theorem Diagram.mindmap_layout_apart [IsStrictOrderedRing K] (s : LayoutSettings K) (d : Diagram K)
    (hk : d.kind = .mindmap) (hd : d.Sized) (hu : 0 ≤ s.mindmap.unitHeight)
    (hh : ∀ i n, d.nodes[i]? = some n → i ∉ (Mindmap.trees d).flatMap Forest.roots →
      n.height ≤ s.mindmap.unitHeight) :
    (d.layout s).unplaced = d.unplaced ∧
      (d.layout s).nodes.Pairwise fun m n => m.box.Apart n.box := by
  refine ⟨hd.unplaced_layout s, ?_⟩
  have hunit : ∀ tree ∈ Mindmap.trees d, ∀ i ∈ tree.descendants, ∀ n, d.nodes[i]? = some n →
      n.height ≤ s.mindmap.unitHeight := by
    have hnodes : ((Mindmap.trees d).flatMap Forest.nodes).Nodup :=
      (Graph.nodes_spanFrom_perm d.graph.nodup_nodes fun i => List.mem_append_right _).nodup_iff.2
        d.graph.nodup_nodes
    exact fun tree ht i hi n hn =>
      hh i n hn (Forest.not_mem_roots_of_mem_descendants hnodes ht hi)
  have hstack := (Mindmap.pairwise_apart_stack s.mindmap hu
    (fun n hn => ⟨(hd n hn).1.le, (hd n hn).2.le⟩) hunit 0).1
  have hplace : (d.layout s).nodes = Mindmap.place s d := by
    rw [hd.nodes_layout, place, hk]
  have hcovers := Mindmap.covers_stack s.mindmap d
  rw [zero_eq] at hcovers
  obtain ⟨dx, dy, hn⟩ := exists_normalize_eq s.padding
    (settle d.nodes (Mindmap.stack s.mindmap d.nodes 0 (Mindmap.trees d)))
  rw [hplace, Mindmap.place, zero_eq, hn, pairwise_apart_map_shift]
  exact pairwise_apart_of_perm hcovers.settle_perm.symm (List.pairwise_map.2 hstack)

def Diagram.twoTrees : Diagram ℚ where
  kind := .mindmap
  nodes :=
    [⟨"node-1", .root, 0, 0, 120, 200, "root", none⟩,
      ⟨"node-2", .branch, 0, 0, 100, 40, "left", none⟩,
      ⟨"node-3", .branch, 0, 0, 1 / 7, 40, "right", none⟩,
      ⟨"node-4", .leaf, 0, 0, 800, 36, "shared", none⟩,
      ⟨"node-5", .generic, 0, 0, 120, 60, "egg", none⟩,
      ⟨"node-6", .generic, 0, 0, 120, 20, "hen", none⟩]
  edges :=
    [⟨"edge-1", "node-1", "node-2", none, none, none⟩,
      ⟨"edge-2", "node-1", "node-3", none, none, none⟩,
      ⟨"edge-3", "node-2", "node-4", none, none, none⟩,
      ⟨"edge-4", "node-3", "node-4", none, none, none⟩,
      ⟨"edge-5", "node-4", "node-2", none, none, none⟩,
      ⟨"edge-6", "node-5", "node-6", none, none, none⟩,
      ⟨"edge-7", "node-6", "node-5", none, none, none⟩]
  title := none
  skipped := []
  unresolved := []

theorem Diagram.twoTrees_layout_apart :
    Diagram.twoTrees.kind = .mindmap ∧ Diagram.twoTrees.Sized ∧
      0 ≤ LayoutSettings.dense.mindmap.unitHeight ∧
      (Mindmap.trees Diagram.twoTrees).flatMap Forest.roots = [0, 4] ∧
      (∀ i n, Diagram.twoTrees.nodes[i]? = some n → i ∉ [0, 4] →
        n.height ≤ LayoutSettings.dense.mindmap.unitHeight) ∧
      (Diagram.twoTrees.layout .dense).unplaced = Diagram.twoTrees.unplaced ∧
      (Diagram.twoTrees.layout .dense).nodes.Pairwise fun m n => m.box.Apart n.box := by
  have hk : Diagram.twoTrees.kind = .mindmap := by decide
  have hd : Diagram.twoTrees.Sized := by decide +kernel
  have hu : (0 : ℚ) ≤ 40 := by decide +kernel
  have hroots : (Mindmap.trees Diagram.twoTrees).flatMap Forest.roots = [0, 4] := by decide +kernel
  have hlow : ∀ p ∈ Diagram.twoTrees.nodes.zipIdx, p.2 ∉ [0, 4] → p.1.height ≤ 40 := by
    decide +kernel
  have hh : ∀ i n, Diagram.twoTrees.nodes[i]? = some n → i ∉ [0, 4] → n.height ≤ 40 :=
    fun i n hn => hlow (n, i) (List.mem_zipIdx_iff_getElem?.2 hn)
  refine ⟨hk, hd, hu, hroots, hh, ?_⟩
  exact Diagram.mindmap_layout_apart .dense Diagram.twoTrees hk hd hu (hroots.symm ▸ hh)

end Drafting
