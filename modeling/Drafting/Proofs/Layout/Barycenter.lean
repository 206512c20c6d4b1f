import Drafting.Proofs.Layout.Boxes

namespace Drafting

open Scalar Layout.UseCase

variable {K : Type} [Field K] [LinearOrder K] [FloorSemiring K]

namespace Diagram

def caseHeights (d : Diagram K) (id : String) : List K :=
  d.edges.filterMap fun e =>
    if e.source = id then (d.node? e.target).bind sight
    else if e.target = id then (d.node? e.source).bind sight
    else none

def target (d : Diagram K) (n : Node K) : K :=
  (d.caseHeights n.id).sum / (d.caseHeights n.id).length - n.height / 2

def IsLinked (d : Diagram K) (n : Node K) : Prop := n.kind = .actor ∧ d.caseHeights n.id ≠ []

variable {d : Diagram K}

theorem caseHeights_eq_linkedHeights (hd : d.ids.Nodup) {i : Nat} {n : Node K}
    (hn : d.nodes[i]? = some n) (ha : isActor n) :
    d.caseHeights n.id = linkedHeights d.links i := by
  have he : d.edges.zipIdx.map Prod.fst = d.edges := List.zipIdx_map_fst 0 d.edges
  rw [caseHeights, linkedHeights, links, List.filterMap_filterMap]
  conv => lhs; rw [← he, List.filterMap_map]
  refine List.filterMap_congr fun p _ => ?_
  obtain ⟨e, k⟩ := p
  have hself : d.locate? n.id = some ⟨i, n⟩ := (locate?_eq_some_iff hd).2 ⟨hn, rfl⟩
  have hother {id : String} {p : Endpoint K} (hp : d.locate? id = some p) (hid : id ≠ n.id) :
      p.index ≠ i := by
    obtain ⟨hm, rfl⟩ := getElem?_of_locate? hp
    rintro rfl
    exact hid (congrArg Node.id (Option.some_inj.1 (hm.symm.trans hn)))
  simp only [Function.comp_apply, node?_eq hd, link?]
  by_cases hs : e.source = n.id
  · rw [if_pos hs, hs, hself]
    cases d.locate? e.target with
    | none => rfl
    | some q => cases hq : isActor q.node <;> simp [sight, ha, hq]
  · rw [if_neg hs]
    cases hp : d.locate? e.source with
    | none => simp
    | some p =>
        have hi := hother hp hs
        by_cases ht : e.target = n.id
        · rw [if_pos ht, ht, hself]
          cases hm : isActor p.node <;> simp [sight, ha, hi, hm]
        · rw [if_neg ht]
          cases hq : d.locate? e.target with
          | none => rfl
          | some q => simp [hi, hother hq ht]

def shift (dx dy : K) (d : Diagram K) : Diagram K :=
  { d with nodes := d.nodes.map (Node.shift dx dy) }

theorem getElem?_nodes_shift {dx dy : K} {i : Nat} {n : Node K} :
    (d.shift dx dy).nodes[i]? = some n ↔ ∃ m, d.nodes[i]? = some m ∧ m.shift dx dy = n := by
  rw [shift, List.getElem?_map, Option.map_eq_some_iff]

theorem caseHeights_shift (d : Diagram K) (dx dy : K) (id : String) :
    (d.shift dx dy).caseHeights id = (d.caseHeights id).map (· + dy) := by
  have hsight (n : Node K) : sight (n.shift dx dy) = (sight n).map (· + dy) := by
    have hcenter : (n.shift dx dy).center.y = n.center.y + dy := by
      rw [Node.center, Node.box_shift, Node.center]
      exact add_right_comm _ _ _
    rw [sight, sight, hcenter]
    change (if isActor n then none else _) = _
    cases isActor n <;> rfl
  have hnode (id : String) :
      ((d.shift dx dy).node? id).bind sight = ((d.node? id).bind sight).map (· + dy) := by
    rw [node?, shift, List.find?_map, Option.bind_map, Option.map_bind]
    exact congrArg _ (funext hsight)
  rw [caseHeights, caseHeights, List.map_filterMap]
  refine List.filterMap_congr fun e _ => ?_
  rw [hnode, hnode]
  split_ifs <;> rfl

theorem mean_map_add {as : List K} (h : as ≠ []) (b : K) :
    (as.map (· + b)).sum / (as.map (· + b)).length = as.sum / as.length + b := by
  have hlength : (as.length : K) ≠ 0 :=
    Nat.cast_ne_zero.2 fun hl => h (List.length_eq_zero_iff.1 hl)
  rw [List.sum_map_add, List.map_id', List.map_const', List.sum_replicate, List.length_map,
    nsmul_eq_mul, add_div, mul_div_cancel_left₀ _ hlength]

theorem target_of_unplaced {m n : Node K} (h : m.unplaced = n.unplaced) :
    d.target m = d.target n := by
  have hid : m.unplaced.id = n.unplaced.id := congrArg Node.id h
  have hheight : m.unplaced.height = n.unplaced.height := congrArg Node.height h
  rw [target, target, show m.id = n.id from hid, show m.height = n.height from hheight]

theorem IsLinked.target_shift {n : Node K} (h : d.IsLinked n) (dx dy : K) :
    (d.shift dx dy).target (n.shift dx dy) = d.target n + dy := by
  rw [target_of_unplaced (show (n.shift dx dy).unplaced = n.unplaced from rfl), target,
    caseHeights_shift, mean_map_add h.2, target, add_sub_right_comm]

theorem isLinked_shift {n : Node K} (dx dy : K) :
    (d.shift dx dy).IsLinked (n.shift dx dy) ↔ d.IsLinked n := by
  refine and_congr Iff.rfl (not_congr ?_)
  rw [caseHeights_shift, List.map_eq_nil_iff]
  rfl

/-- The linked actors from the highest target down, those of equal targets in the order of the
diagram. Each has its top at its target or, if that is lower, a gap below the one before it. -/
structure PushesDown (d : Diagram K) (gap : K) (order : Layout.Placement K) : Prop where
  linked : ∀ i n, (i, n) ∈ order ↔ d.nodes[i]? = some n ∧ d.IsLinked n
  sorted : order.Pairwise fun p q =>
    d.target p.2 < d.target q.2 ∨ d.target p.2 = d.target q.2 ∧ p.1 < q.1
  first : ∀ p ∈ order.head?, p.2.box.y = d.target p.2
  next : order.IsChain fun p q => q.2.box.y = max (d.target q.2) (p.2.box.bottom + gap)

theorem PushesDown.shift [IsOrderedAddMonoid K] {gap : K} {order : Layout.Placement K}
    (h : d.PushesDown gap order) (dx dy : K) :
    (d.shift dx dy).PushesDown gap (Layout.onNodes (Node.shift dx dy) order) := by
  have htarget : ∀ p ∈ order, (d.shift dx dy).target (p.2.shift dx dy) = d.target p.2 + dy :=
    fun p hp => ((h.linked p.1 p.2).1 hp).2.target_shift dx dy
  constructor
  · intro i n
    rw [getElem?_nodes_shift]
    constructor
    · intro hm
      obtain ⟨⟨j, m⟩, hj, he⟩ := List.mem_map.1 hm
      cases he
      obtain ⟨hi, hl⟩ := (h.linked j m).1 hj
      exact ⟨⟨m, hi, rfl⟩, (isLinked_shift dx dy).2 hl⟩
    · rintro ⟨⟨m, hi, rfl⟩, hl⟩
      exact List.mem_map.2 ⟨(i, m), (h.linked i m).2 ⟨hi, (isLinked_shift dx dy).1 hl⟩, rfl⟩
  · refine List.pairwise_map.2 (h.sorted.imp_of_mem fun hp hq hlt => ?_)
    rw [htarget _ hp, htarget _ hq, add_lt_add_iff_right, add_left_inj]
    exact hlt
  · intro p hp
    rw [Layout.onNodes, List.head?_map] at hp
    obtain ⟨q, hq, rfl⟩ := Option.map_eq_some_iff.1 hp
    rw [htarget q (List.mem_of_mem_head? hq), Node.box_shift, Rect.y_shift, h.first q hq]
  · refine (List.isChain_map _).2 (h.next.imp_of_mem_imp fun p q hp hq hy => ?_)
    rw [htarget q hq, Node.box_shift, Node.box_shift, Rect.y_shift, Rect.bottom_shift, hy,
      ← max_add_add_right, add_right_comm]

end Diagram

end Drafting
