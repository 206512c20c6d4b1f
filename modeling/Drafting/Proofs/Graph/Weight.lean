import Mathlib.Algebra.BigOperators.Group.List.Basic
import Mathlib.Data.Set.Card
import Mathlib.Logic.Relation
import Drafting.Proofs.Graph.Tree

namespace Drafting

variable {below : Nat → List Nat} {weight : Nat → Nat} {i j : Nat}

def Descends (below : Nat → List Nat) : Nat → Nat → Prop :=
  Relation.ReflTransGen fun i j => j ∈ below i

def Balanced (below : Nat → List Nat) (weight : Nat → Nat) (i : Nat) : Prop :=
  weight i = if below i = [] then 1 else ((below i).map weight).sum

def weigh (below : Nat → List Nat) (weight : Nat → Nat) (i : Nat) : Nat → Nat :=
  if below i = [] then weight else Function.update weight i ((below i).map weight).sum

def weights (below : Nat → List Nat) (order : List Nat) : Nat → Nat :=
  order.reverse.foldl (weigh below) fun _ => 1

theorem weights_cons (below : Nat → List Nat) (i : Nat) (order : List Nat) :
    weights below (i :: order) = weigh below (weights below order) i := by
  rw [weights, List.reverse_cons, List.foldl_concat, weights]

theorem weights_of_not_mem {order : List Nat} (h : i ∉ order) : weights below order i = 1 := by
  induction order with
  | nil => rfl
  | cons k order ih =>
      rw [List.mem_cons, not_or] at h
      rw [weights_cons, weigh]
      split
      · exact ih h.2
      · rw [Function.update_of_ne h.1, ih h.2]

theorem weigh_of_ne (h : j ≠ i) : weigh below weight i j = weight j := by
  rw [weigh]
  split
  · rfl
  · exact Function.update_of_ne h _ _

structure Ordered (below : Nat → List Nat) (order : List Nat) : Prop where
  nodup : order.Nodup
  inside : ∀ i ∈ order, ∀ j ∈ below i, j ∈ order
  loopless : ∀ i ∈ order, i ∉ below i
  ahead : order.Pairwise fun i j => i ∉ below j

theorem Ordered.balanced {order : List Nat} (h : Ordered below order) (hi : i ∈ order) :
    Balanced below (weights below order) i := by
  -- When a node is weighed all that is behind it has its weight already, and keeps it.
  induction order with
  | nil => cases hi
  | cons k order ih =>
      obtain ⟨hk, hn⟩ := List.nodup_cons.1 h.nodup
      obtain ⟨hak, ha⟩ := List.pairwise_cons.1 h.ahead
      obtain ⟨hlk, hl⟩ := List.forall_mem_cons.1 h.loopless
      have hrest : Ordered below order := by
        refine ⟨hn, fun i hi j hj => ?_, hl, ha⟩
        have hne : j ≠ k := ne_of_mem_of_not_mem hj (hak i hi)
        exact (List.mem_cons.1 (h.inside i (List.mem_cons_of_mem k hi) j hj)).resolve_left hne
      have hkept {j : Nat} (hj : j ≠ k) : weights below (k :: order) j = weights below order j := by
        rw [weights_cons, weigh_of_ne hj]
      have hsum {i : Nat} (hki : k ∉ below i) : (below i).map (weights below (k :: order)) =
          (below i).map (weights below order) :=
        List.map_congr_left fun j hj => hkept (ne_of_mem_of_not_mem hj hki)
      rw [Balanced]
      rcases List.mem_cons.1 hi with rfl | hi
      · rw [hsum hlk, weights_cons, weigh]
        split
        · exact weights_of_not_mem hk
        · exact Function.update_self _ _ _
      · rw [hsum (hak i hi), hkept (ne_of_mem_of_not_mem hi hk)]
        exact ih hrest hi

namespace Forest

variable {f : Forest}

theorem roots_eq_nil_iff : f.roots = [] ↔ f = nil := by
  cases f <;> simp [roots]

theorem weight_pos (h : f ≠ nil) : 0 < f.weight := by
  cases f with
  | nil => exact absurd rfl h
  | cons i children siblings =>
      rw [weight]
      omega

theorem Follows.sum_eq_weight (h : f.Follows below) (hw : ∀ i ∈ f.nodes, Balanced below weight i) :
    (f.roots.map weight).sum = f.weight := by
  induction f with
  | nil => rfl
  | cons i children siblings ihc ihs =>
      obtain ⟨hr, hc, hs⟩ := h
      rw [nodes, List.forall_mem_cons, List.forall_mem_append] at hw
      obtain ⟨hi, hwc, hws⟩ := hw
      rw [Balanced, ← hr, ihc hc hwc] at hi
      rw [roots, List.map_cons, List.sum_cons, ihs hs hws, hi, Forest.weight]
      split
      next he =>
        rw [roots_eq_nil_iff.1 he]
        rfl
      next hne => rw [max_eq_right (weight_pos (mt roots_eq_nil_iff.2 hne))]

theorem Follows.weight_eq_max {children siblings : Forest}
    (h : (cons i children siblings).Follows below)
    (hw : ∀ j ∈ (cons i children siblings).nodes, Balanced below weight j) :
    weight i = max 1 children.weight := by
  have htree : (cons i children nil).Follows below := ⟨h.1, h.2.1, trivial⟩
  have hsum := htree.sum_eq_weight fun j hj => hw j (by
    rw [nodes, nodes, List.append_nil] at hj
    rw [nodes, ← List.cons_append]
    exact List.mem_append_left _ hj)
  simpa [roots, Forest.weight] using hsum

theorem Follows.countP_eq_weight (h : f.Follows below) :
    f.nodes.countP (fun i => (below i).isEmpty) = f.weight := by
  induction f with
  | nil => rfl
  | cons i children siblings ihc ihs =>
      obtain ⟨hr, hc, hs⟩ := h
      rw [nodes, List.countP_cons, List.countP_append, ihc hc, ihs hs, Forest.weight, ← hr]
      split
      next he =>
        rw [roots_eq_nil_iff.1 (List.isEmpty_iff.1 he)]
        simp [Forest.weight, Nat.add_comm]
      next hne =>
        have hpos := weight_pos (mt roots_eq_nil_iff.2 (mt List.isEmpty_iff.2 hne))
        omega

theorem Follows.exists_isBelow (h : f.Follows below) (hi : i ∈ f.nodes) :
    ∃ sub, IsBelow below sub i ∧ (i :: sub.nodes).Sublist f.nodes := by
  induction f with
  | nil => cases hi
  | cons r children siblings ihc ihs =>
      obtain ⟨hr, hc, hs⟩ := h
      rw [nodes, List.mem_cons, List.mem_append] at hi
      rw [nodes]
      rcases hi with rfl | hi | hi
      · exact ⟨children, ⟨hr, hc⟩, (List.sublist_append_left _ _).cons_cons i⟩
      · obtain ⟨sub, hsub, hl⟩ := ihc hc hi
        exact ⟨sub, hsub, (hl.trans (List.sublist_append_left _ _)).cons r⟩
      · obtain ⟨sub, hsub, hl⟩ := ihs hs hi
        exact ⟨sub, hsub, (hl.trans (List.sublist_append_right _ _)).cons r⟩

theorem Follows.mem_nodes_iff (h : f.Follows below) :
    j ∈ f.nodes ↔ ∃ i ∈ f.roots, Descends below i j := by
  constructor
  · intro hj
    induction f with
    | nil => cases hj
    | cons i children siblings ihc ihs =>
        obtain ⟨hr, hc, hs⟩ := h
        rw [nodes, List.mem_cons, List.mem_append] at hj
        rcases hj with rfl | hj | hj
        · exact ⟨j, List.mem_cons_self, .refl⟩
        · obtain ⟨k, hk, hl⟩ := ihc hc hj
          exact ⟨i, List.mem_cons_self, .head (hr ▸ hk) hl⟩
        · obtain ⟨k, hk, hl⟩ := ihs hs hj
          exact ⟨k, List.mem_cons_of_mem i hk, hl⟩
  · rintro ⟨i, hi, hl⟩
    induction hl with
    | refl => exact mem_nodes_of_mem_roots hi
    | tail _ hjk ih => exact h.mem_of_mem_below ih hjk

theorem IsBelow.mem_iff_descends (h : IsBelow below f i) :
    j ∈ i :: f.nodes ↔ Descends below i j := by
  have htree : (cons i f nil).Follows below := ⟨h.1, h.2, trivial⟩
  simpa [nodes, roots] using htree.mem_nodes_iff

/-- In trees without repetition a node weighs as much as there are leaves below it. -/
theorem Follows.ncard_leaves (h : f.Follows below) (hn : f.nodes.Nodup)
    (hw : ∀ i ∈ f.nodes, Balanced below weight i) (hi : i ∈ f.nodes) :
    {j | Descends below i j ∧ below j = []}.ncard = weight i := by
  obtain ⟨sub, hsub, hl⟩ := h.exists_isBelow hi
  have htree : (cons i sub nil).Follows below := ⟨hsub.1, hsub.2, trivial⟩
  have hnodes : (cons i sub nil).nodes = i :: sub.nodes := by simp [nodes]
  have hleaves : {j | Descends below i j ∧ below j = []} =
      (((i :: sub.nodes).filter fun j => (below j).isEmpty).toFinset : Set Nat) := by
    ext j
    simp [hsub.mem_iff_descends, ← List.mem_cons]
  have hsum := htree.sum_eq_weight fun j hj => hw j (hl.subset (hnodes ▸ hj))
  rw [hleaves, Set.ncard_coe_finset, List.toFinset_card_of_nodup ((hn.sublist hl).filter _),
    ← List.countP_eq_length_filter, ← hnodes, htree.countP_eq_weight, ← hsum]
  simp [roots]

end Forest

end Drafting
