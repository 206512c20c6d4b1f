import Mathlib.Algebra.Order.BigOperators.Group.List
import Drafting.Proofs.Layout.Rows

namespace Drafting

open Scalar

/-- Sorting is stable: what compares equal stays in order. -/
theorem pairwise_mergeSort_stable {α : Type} {le : α → α → Bool} {r : α → α → Prop}
    (trans : ∀ a b c, le a b → le b c → le a c) (total : ∀ a b, le a b || le b a) {as : List α}
    (h : as.Pairwise r) : (as.mergeSort le).Pairwise fun a b => le a b ∧ (le b a → r a b) := by
  induction as with
  | nil => simp
  | cons a as ih =>
      obtain ⟨ha, has⟩ := List.pairwise_cons.1 h
      obtain ⟨before, behind, hsort, hrest, hbefore⟩ := List.mergeSort_cons trans total a as
      have hsorted := List.pairwise_mergeSort trans total (a :: as)
      have hstable := ih has
      have hmem : ∀ b ∈ before ++ behind, b ∈ as := by
        rw [← hrest]
        exact fun b => List.mem_mergeSort.1
      rw [hsort, List.pairwise_append, List.pairwise_cons] at hsorted
      rw [hrest, List.pairwise_append] at hstable
      rw [hsort, List.pairwise_append, List.pairwise_cons]
      obtain ⟨-, ⟨hafter, -⟩, hcross⟩ := hsorted
      obtain ⟨hfirst, hlast, hapart⟩ := hstable
      refine ⟨hfirst, ⟨fun b hb => ⟨hafter b hb, fun _ => ha b (hmem b ?_)⟩, hlast⟩, ?_⟩
      · exact List.mem_append_right before hb
      · intro b hb c hc
        rcases List.mem_cons.1 hc with rfl | hc
        · have hnot := hbefore b hb
          exact ⟨hcross b hb c List.mem_cons_self, fun hle => by simp [hle] at hnot⟩
        · exact hapart b hb c hc

namespace Layout.UseCase

section

variable {α : Type} [Scalar α]

def placeColumn (gap : α) (left : Node α → α) (top : α) (row : Placement α) : Placement α :=
  List.zipWith (fun p y => (p.1, p.2.placeCorner (left p.2) y)) row
    (offsets top (row.map fun p => p.2.height + gap))

theorem placeColumn_cons (gap : α) (left : Node α → α) (top : α) (p : Nat × Node α)
    (row : Placement α) :
    placeColumn gap left top (p :: row) = (p.1, p.2.placeCorner (left p.2) top) ::
      placeColumn gap left (top + (p.2.height + gap)) row := rfl

theorem exists_of_mem_placeColumn {gap top : α} {left : Node α → α} {row : Placement α}
    {p : Nat × Node α} (h : p ∈ placeColumn gap left top row) :
    ∃ q ∈ row, ∃ y, p = (q.1, q.2.placeCorner (left q.2) y) := exists_of_mem_zipWith h

theorem pushDown_cons (gap column : α) (free : Option α) (t : Target α) (ts : List (Target α)) :
    pushDown gap column free (t :: ts) =
      let y := free.elim t.top (greatest t.top)
      (t.index, t.node.placeCorner ((column - t.node.width) / 2) y) ::
        pushDown gap column (some (y + t.node.height + gap)) ts := by
  cases free <;> rfl

theorem map_pushDown {β : Type} {v : Nat × Node α → β} {w : Target α → β} {ts : List (Target α)}
    (h : ∀ t ∈ ts, ∀ x y, v (t.index, t.node.placeCorner x y) = w t) (gap column : α)
    (free : Option α) : (pushDown gap column free ts).map v = ts.map w := by
  induction ts generalizing free with
  | nil => rfl
  | cons t ts ih =>
      obtain ⟨ht, h⟩ := List.forall_mem_cons.1 h
      rw [pushDown_cons, List.map_cons, List.map_cons, ih h, ht]

theorem exists_of_mem_pushDown {gap column : α} {free : Option α} {ts : List (Target α)}
    {p : Nat × Node α} (h : p ∈ pushDown gap column free ts) :
    ∃ t ∈ ts, ∃ y, p = (t.index, t.node.placeCorner ((column - t.node.width) / 2) y) := by
  induction ts generalizing free with
  | nil => simp [pushDown] at h
  | cons t ts ih =>
      rw [pushDown_cons] at h
      rcases List.mem_cons.1 h with rfl | h
      · exact ⟨t, List.mem_cons_self, _, rfl⟩
      · obtain ⟨u, hu, hy⟩ := ih h
        exact ⟨u, List.mem_cons_of_mem t hu, hy⟩

theorem mem_targets {links : List (Link α)} {actors : Placement α} {t : Target α}
    (h : t ∈ targets links actors) : (t.index, t.node) ∈ actors ∧
      linkedHeights links t.index ≠ [] ∧
        t.top = mean (linkedHeights links t.index) - t.node.height / 2 := by
  rw [targets, List.mem_mergeSort, List.mem_filterMap] at h
  obtain ⟨p, hp, ht⟩ := h
  by_cases he : (linkedHeights links p.1).isEmpty
  · simp [he] at ht
  · rw [if_neg he, Option.some_inj] at ht
    subst ht
    exact ⟨hp, fun hn => he (List.isEmpty_iff.2 hn), rfl⟩

end

variable {K : Type} [Field K] [LinearOrder K] [FloorSemiring K]

theorem targets_sorted (links : List (Link K)) (nodes : List (Node K)) :
    (targets links (actorsOf nodes)).Pairwise fun t u =>
      t.top < u.top ∨ t.top = u.top ∧ t.index < u.index := by
  have hranks (a b : K) : ranks a b ↔ a ≤ b := decide_eq_true_iff
  refine (pairwise_mergeSort_stable (r := fun t u => t.index < u.index) ?_ ?_ ?_).imp ?_
  · intro a b c
    simp only [hranks]
    exact le_trans
  · intro a b
    rw [Bool.or_eq_true, hranks, hranks]
    exact le_total _ _
  · refine (actorsOf_pairwise nodes).filterMap _ fun p q hpq t ht u hu => ?_
    dsimp only at ht hu
    split at ht
    · cases ht
    · split at hu
      · cases hu
      · cases ht
        cases hu
        exact hpq
  · rintro t u ⟨hle, hties⟩
    rw [hranks] at hle hties
    exact hle.lt_or_eq.imp_right fun heq => ⟨heq, hties heq.ge⟩

def Queued (gap : K) (placed : Placement K) : Prop :=
  placed.Pairwise fun p q => p.2.box.bottom + gap ≤ q.2.box.y

section

variable {gap column : K} {ts : List (Target K)}

theorem pushDown_chain {target : Nat × Node K → K}
    (h : ∀ t ∈ ts, ∀ x y, target (t.index, t.node.placeCorner x y) = t.top) (free : Option K) :
    (∀ p ∈ (pushDown gap column free ts).head?,
        p.2.box.y = free.elim (target p) (max (target p))) ∧
      (pushDown gap column free ts).IsChain fun p q =>
        q.2.box.y = max (target q) (p.2.box.bottom + gap) := by
  induction ts generalizing free with
  | nil => simp [pushDown]
  | cons t ts ih =>
      obtain ⟨ht, h⟩ := List.forall_mem_cons.1 h
      rw [pushDown_cons]
      constructor
      · intro p hp
        rw [← Option.some_inj.1 hp, Node.box_placeCorner, ht]
        cases free with
        | none => rfl
        | some f => exact greatest_eq_max t.top f
      · obtain ⟨hhead, hchain⟩ :=
          ih h (some (free.elim t.top (greatest t.top) + t.node.height + gap))
        refine List.isChain_cons.2 ⟨fun q hq => ?_, hchain⟩
        rw [hhead q hq, Node.box_placeCorner]
        rfl

variable [IsStrictOrderedRing K]

theorem queued_pushDown (hg : 0 ≤ gap) (hs : ∀ t ∈ ts, 0 ≤ t.node.height) (free : Option K) :
    Queued gap (pushDown gap column free ts) ∧
      ∀ f ∈ free, ∀ p ∈ pushDown gap column free ts, f ≤ p.2.box.y := by
  induction ts generalizing free with
  | nil => simp [pushDown, Queued]
  | cons t ts ih =>
      obtain ⟨ht, hs⟩ := List.forall_mem_cons.1 hs
      rw [pushDown_cons]
      let y := free.elim t.top (greatest t.top)
      obtain ⟨hqueued, hlow⟩ := ih hs (some (y + t.node.height + gap))
      replace hlow := hlow _ rfl
      constructor
      · refine List.pairwise_cons.2 ⟨fun q hq => ?_, hqueued⟩
        rw [Node.box_placeCorner]
        exact hlow q hq
      · rintro f rfl
        have hf : f ≤ y := (le_max_right t.top f).trans_eq (greatest_eq_max t.top f).symm
        refine List.forall_mem_cons.2 ⟨?_, fun q hq => ?_⟩
        · rw [Node.box_placeCorner]
          exact hf
        · have hq := hlow q hq
          linarith

theorem queued_placeColumn {left : Node K → K} (hg : 0 ≤ gap) {row : Placement K}
    (hs : SizedRow row) (top : K) :
    Queued gap (placeColumn gap left top row) ∧ ∀ p ∈ placeColumn gap left top row,
      top ≤ p.2.box.y ∧
        p.2.box.bottom + gap ≤ top + (row.map fun p => p.2.height + gap).sum := by
  induction row generalizing top with
  | nil => simp [placeColumn, Queued]
  | cons p row ih =>
      obtain ⟨⟨_, hp⟩, hs⟩ := List.forall_mem_cons.1 hs
      obtain ⟨hqueued, hbetween⟩ := ih hs (top + (p.2.height + gap))
      have hbox := p.2.box_placeCorner (left p.2) top
      have hrest : 0 ≤ (row.map fun p => p.2.height + gap).sum :=
        List.sum_nonneg (List.forall_mem_map.2 fun q hq => add_nonneg (hs q hq).2 hg)
      rw [placeColumn_cons, List.map_cons, List.sum_cons]
      constructor
      · refine List.pairwise_cons.2 ⟨fun q hq => ?_, hqueued⟩
        rw [hbox, Rect.bottom, add_assoc]
        exact (hbetween q hq).1
      · refine List.forall_mem_cons.2 ⟨?_, fun q hq => ?_⟩
        · rw [hbox, Rect.bottom]
          exact ⟨le_rfl, by linarith⟩
        · obtain ⟨htop, hbottom⟩ := hbetween q hq
          exact ⟨by linarith, by linarith⟩

end

theorem Queued.pairwise_apart [IsOrderedAddMonoid K] {gap : K} {placed : Placement K}
    (h : Queued gap placed) (hg : 0 ≤ gap) : placed.Pairwise fun p q => p.2.box.Apart q.2.box :=
  h.imp fun hle => Rect.apart_of_bottom_le ((le_add_of_nonneg_right hg).trans hle)

end Layout.UseCase

end Drafting
