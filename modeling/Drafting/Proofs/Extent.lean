import Mathlib.Data.Rat.Floor
import Drafting.Diagram
import Drafting.Proofs.Geometry
import Drafting.Proofs.Layout.Boxes

namespace Drafting

variable {K : Type} [Field K] [LinearOrder K] [FloorSemiring K]

namespace Rect

variable {r s t : Rect K} {rs : List (Rect K)}

theorem holds_self (r : Rect K) : r.Holds r := ⟨⟨le_rfl, le_rfl⟩, le_rfl, le_rfl⟩

theorem Holds.antisymm (hr : r.Holds s) (hs : s.Holds r) : r = s :=
  ext_sides (le_antisymm hr.1.1 hs.1.1) (le_antisymm hr.2.1 hs.2.1)
    (le_antisymm hs.1.2 hr.1.2) (le_antisymm hs.2.2 hr.2.2)

/-- What is joined lies within a rectangle as soon as both parts do. -/
theorem holds_join_iff : t.Holds (r.join s) ↔ t.Holds r ∧ t.Holds s := by
  simp only [Holds, x_join, y_join, right_join, bottom_join, le_min_iff, max_le_iff]
  tauto

theorem holds_foldl_join_iff : t.Holds (rs.foldl join r) ↔ t.Holds r ∧ ∀ s ∈ rs, t.Holds s := by
  induction rs generalizing r with
  | nil => simp
  | cons s rs ih => rw [List.foldl_cons, ih, holds_join_iff, List.forall_mem_cons, and_assoc]

theorem holds_enclosing?_iff (h : enclosing? rs = some r) : t.Holds r ↔ ∀ s ∈ rs, t.Holds s := by
  cases rs with
  | nil => cases h
  | cons s rs =>
      cases h
      rw [holds_foldl_join_iff, List.forall_mem_cons]

theorem enclosing?_append_eq_merge (rs ss : List (Rect K)) :
    enclosing? (rs ++ ss) = Option.merge join (enclosing? rs) (enclosing? ss) := by
  cases rs with
  | nil =>
      rw [List.nil_append]
      cases enclosing? ss <;> rfl
  | cons r rs =>
      cases ss with
      | nil => rw [List.append_nil]; rfl
      | cons s ss => exact enclosing?_append rfl rfl

def region (r : Rect K) : Set (Point K) := {p | r.Contains p}

def Proper (r : Rect K) : Prop := 0 ≤ r.width ∧ 0 ≤ r.height

theorem Holds.region_subset (h : s.Holds r) : r.region ⊆ s.region := fun _ hp =>
  ⟨⟨h.1.1.trans hp.1.1, hp.1.2.trans h.1.2⟩, h.2.1.trans hp.2.1, hp.2.2.trans h.2.2⟩

structure IsLeastAround (r : Rect K) (rs : List (Rect K)) : Prop where
  covers : ∀ s ∈ rs, s.region ⊆ r.region
  least : ∀ t : Rect K, (∀ s ∈ rs, s.region ⊆ t.region) → r.region ⊆ t.region

variable [IsStrictOrderedRing K]

theorem proper_iff : r.Proper ↔ r.x ≤ r.right ∧ r.y ≤ r.bottom := by
  rw [Proper, right, bottom, le_add_iff_nonneg_right, le_add_iff_nonneg_right]

/-- The corners of a rectangle tell where all of it lies. -/
theorem region_subset_iff (h : r.Proper) : r.region ⊆ s.region ↔ s.Holds r := by
  refine ⟨fun hsub => ?_, Holds.region_subset⟩
  obtain ⟨hx, hy⟩ := proper_iff.1 h
  have hnear := hsub (show ⟨r.x, r.y⟩ ∈ r.region from ⟨⟨le_rfl, hx⟩, le_rfl, hy⟩)
  have hfar := hsub (show ⟨r.right, r.bottom⟩ ∈ r.region from ⟨⟨hx, le_rfl⟩, hy, le_rfl⟩)
  exact ⟨⟨hnear.1.1, hfar.1.2⟩, hnear.2.1, hfar.2.2⟩

theorem Holds.proper (h : r.Holds s) (hs : s.Proper) : r.Proper := by
  obtain ⟨hx, hy⟩ := proper_iff.1 hs
  exact proper_iff.2 ⟨h.1.1.trans (hx.trans h.1.2), h.2.1.trans (hy.trans h.2.2)⟩

theorem isLeastAround_of_enclosing? (hp : ∀ s ∈ rs, s.Proper) (h : enclosing? rs = some r) :
    IsLeastAround r rs where
  covers s hs := ((holds_enclosing?_iff h).1 (holds_self r) s hs).region_subset
  least t ht := by
    have hall : ∀ s ∈ rs, t.Holds s := fun s hs => (region_subset_iff (hp s hs)).1 (ht s hs)
    exact ((holds_enclosing?_iff h).2 hall).region_subset

theorem IsLeastAround.eq {q : Rect K} (hq : IsLeastAround q rs) (hr : IsLeastAround r rs)
    (hne : rs ≠ []) (hp : ∀ s ∈ rs, s.Proper) : q = r := by
  obtain ⟨s, hs⟩ := List.exists_mem_of_ne_nil rs hne
  have hproper {t : Rect K} (ht : IsLeastAround t rs) : t.Proper :=
    ((region_subset_iff (hp s hs)).1 (ht.covers s hs)).proper (hp s hs)
  have hqr := (region_subset_iff (hproper hr)).1 (hr.least q hq.covers)
  have hrq := (region_subset_iff (hproper hq)).1 (hq.least r hr.covers)
  exact hqr.antisymm hrq

end Rect

/-- The extent of nodes that have no negative size is the least rectangle around their boxes, the
only one of that kind. It does not depend on the order of the nodes, and of two lists one after the
other it is the join of theirs. -/
theorem Node.extent_isLeastAround [IsStrictOrderedRing K] (nodes : List (Node K)) (hne : nodes ≠ [])
    (hs : ∀ n ∈ nodes, 0 ≤ n.width ∧ 0 ≤ n.height) :
    ∃ r, Node.extent nodes = some r ∧ r.IsLeastAround (nodes.map Node.box) ∧
      (∀ q : Rect K, q.IsLeastAround (nodes.map Node.box) → q = r) ∧
      (∀ order : List (Node K), order.Perm nodes → Node.extent order = some r) ∧
      ∀ front back, front ++ back = nodes →
        Option.merge Rect.join (Node.extent front) (Node.extent back) = some r := by
  have hproper : ∀ s ∈ nodes.map Node.box, s.Proper := by
    rw [List.forall_mem_map]
    intro n hn
    rw [Rect.Proper, n.width_box, n.height_box]
    exact hs n hn
  obtain ⟨n, rest, rfl⟩ := List.exists_cons_of_ne_nil hne
  have hleast := Rect.isLeastAround_of_enclosing? hproper rfl
  refine ⟨_, rfl, hleast, fun q hq => hq.eq hleast (by simp) hproper, fun order hp => ?_,
    fun front back hsplit => ?_⟩
  · exact Rect.enclosing?_perm (hp.map Node.box)
  · rw [Node.extent, Node.extent, ← Rect.enclosing?_append_eq_merge, ← List.map_append, hsplit]
    rfl

def Node.threeBoxes : List (Node ℚ) :=
  [⟨"node-1", .leaf, 10, 10, 5, 3, "box", none⟩, ⟨"node-2", .process, -4, 30, 0, 0, "point", none⟩,
    ⟨"node-3", .output, 0, 12, 20, 0, "line", none⟩]

theorem Node.threeBoxes_extent_isLeastAround :
    Node.threeBoxes ≠ [] ∧ (∀ n ∈ Node.threeBoxes, 0 ≤ n.width ∧ 0 ≤ n.height) ∧
      Node.extent Node.threeBoxes = some ⟨-4, 17 / 2, 24, 43 / 2⟩ ∧
      Rect.IsLeastAround ⟨-4, 17 / 2, 24, 43 / 2⟩ (Node.threeBoxes.map Node.box) ∧
      Node.extent Node.threeBoxes.reverse = some ⟨-4, 17 / 2, 24, 43 / 2⟩ := by
  have hne : Node.threeBoxes ≠ [] := by decide
  have hs : ∀ n ∈ Node.threeBoxes, 0 ≤ n.width ∧ 0 ≤ n.height := by decide +kernel
  have he : Node.extent Node.threeBoxes = some ⟨-4, 17 / 2, 24, 43 / 2⟩ := by decide +kernel
  obtain ⟨r, hr, hleast, -, hperm, -⟩ := Node.extent_isLeastAround Node.threeBoxes hne hs
  obtain rfl : r = ⟨-4, 17 / 2, 24, 43 / 2⟩ := Option.some_inj.1 (hr.symm.trans he)
  exact ⟨hne, hs, he, hleast, hperm _ (List.reverse_perm _)⟩

end Drafting
