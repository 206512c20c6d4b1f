import Mathlib.Tactic.Linarith
import Mathlib.Tactic.Ring
import Drafting.Proofs.Layout.Boxes

namespace Drafting.Layout

open Scalar

section

variable {α : Type} [Scalar α] (rule : RowRule α)

/-- The rows one by one, where `placeRows` has them all together; the first begins at `top`. -/
def placedRows (widest : α) : α → List (Placement α) → List (Placement α)
  | _, [] => []
  | top, row :: rows =>
      placeRow rule ((widest - rule.extent (row.map Prod.snd)) / 2) top row ::
        placedRows widest (top + rule.descent (row.map Prod.snd)) rows

theorem placeRows_eq (rows : List (Placement α)) :
    placeRows rule rows =
      (placedRows rule (peak (rows.map fun row => rule.extent (row.map Prod.snd))) 0
        rows).flatten := by
  rw [placeRows]
  generalize peak (rows.map fun row => rule.extent (row.map Prod.snd)) = widest
  generalize (0 : α) = top
  induction rows generalizing top with
  | nil => rfl
  | cons row rows ih =>
      rw [placedRows, List.flatten_cons, ← ih]
      rfl

theorem placeRow_cons (left top : α) (p : Nat × Node α) (row : Placement α) :
    placeRow rule left top (p :: row) =
      (p.1, p.2.placeCorner left top) :: placeRow rule (left + rule.advance p.2) top row := rfl

theorem exists_of_mem_placeRow {left top : α} {row : Placement α} {p : Nat × Node α}
    (h : p ∈ placeRow rule left top row) :
    ∃ q ∈ row, ∃ x, p = (q.1, q.2.placeCorner x top) := exists_of_mem_zipWith h

theorem map_fst_placeRow (left top : α) (row : Placement α) :
    (placeRow rule left top row).map Prod.fst = row.map Prod.fst := by
  rw [← map_fst_blank, blank_placeRow, map_fst_blank]

theorem map_fst_placedRows (widest top : α) (rows : List (Placement α)) :
    (placedRows rule widest top rows).map (List.map Prod.fst) = rows.map (List.map Prod.fst) := by
  induction rows generalizing top with
  | nil => rfl
  | cons row rows ih => rw [placedRows, List.map_cons, List.map_cons, map_fst_placeRow, ih]

theorem rowsOf_settle_placeRows {nodes : List (Node α)} {layers : List (List Nat)}
    (h : Partitions layers nodes.length) :
    let rows := layers.map (pick nodes)
    rowsOf (settle nodes (placeRows rule rows)) layers =
      (placedRows rule (peak (rows.map fun row => rule.extent (row.map Prod.snd))) 0 rows).map
        (List.map Prod.snd) := by
  intro rows
  have hc := covers_placeRows rule h
  rw [placeRows_eq] at hc
  rw [placeRows_eq]
  refine hc.rowsOf_settle ?_
  rw [map_fst_placedRows, List.map_map]
  exact map_map_fst_pick h

end

variable {K : Type} [Field K] [LinearOrder K] [FloorSemiring K]

structure SideBySide (top : K) (row : List (Node K)) : Prop where
  top : ∀ n ∈ row, n.box.y = top
  apart : row.Pairwise fun m n => m.box.right ≤ n.box.x

structure Stacked (rows : List (List (Node K))) : Prop where
  row : ∀ row ∈ rows, ∃ top, SideBySide top row
  apart : rows.Pairwise fun upper lower => ∀ m ∈ upper, ∀ n ∈ lower, m.box.bottom ≤ n.box.y

theorem Stacked.pairwise_apart {rows : List (List (Node K))} (h : Stacked rows) :
    rows.flatten.Pairwise fun m n => m.box.Apart n.box := by
  rw [List.pairwise_flatten]
  constructor
  · intro row hr
    obtain ⟨top, hs⟩ := h.row row hr
    exact hs.apart.imp Rect.apart_of_right_le
  · exact h.apart.imp fun hb m hm n hn => Rect.apart_of_bottom_le (hb m hm n hn)

theorem Stacked.level_or_above {above last : List (List (Node K))} (h : Stacked (above ++ last))
    (hl : last.length ≤ 1) {row : List (Node K)} (hr : row ∈ last) {m : Node K} (hm : m ∈ row) :
    (∀ row ∈ last, ∀ n ∈ row, n.box.y = m.box.y) ∧
      ∀ row ∈ above, ∀ n ∈ row, n.box.bottom ≤ m.box.y := by
  obtain ⟨only, rfl⟩ := List.length_eq_one_iff.1 (le_antisymm hl (List.length_pos_of_mem hr))
  cases List.mem_singleton.1 hr
  obtain ⟨top, hbeside⟩ := h.row row (by simp)
  constructor
  · intro row' hr' n hn
    cases List.mem_singleton.1 hr'
    rw [hbeside.top n hn, hbeside.top m hm]
  · intro upper hu n hn
    exact (List.pairwise_append.1 h.apart).2.2 upper hu row hr n hn m hm

theorem exists_rowsOf_normalize (rule : RowRule K) (padding : K) {nodes : List (Node K)}
    {layers : List (List Nat)} (h : Partitions layers nodes.length) :
    ∃ widest dx dy,
      rowsOf (normalize padding (settle nodes (placeRows rule (layers.map (pick nodes))))) layers =
        (placedRows rule widest 0 (layers.map (pick nodes))).map fun row =>
          (row.map Prod.snd).map (Node.shift dx dy) := by
  obtain ⟨dx, dy, hn⟩ :=
    exists_normalize_eq padding (settle nodes (placeRows rule (layers.map (pick nodes))))
  rw [hn, rowsOf_map, rowsOf_settle_placeRows rule h, zero_eq, List.map_map]
  exact ⟨_, dx, dy, rfl⟩

def SizedRow (row : Placement K) : Prop := ∀ p ∈ row, 0 ≤ p.2.width ∧ 0 ≤ p.2.height

theorem sizedRow_of_getElem? {d : Diagram K} (h : d.Sized) {row : Placement K}
    (hr : ∀ p ∈ row, d.nodes[p.1]? = some p.2) : SizedRow row := by
  intro p hp
  obtain ⟨hw, hh⟩ := h p.2 (List.mem_of_getElem? (hr p hp))
  exact ⟨hw.le, hh.le⟩

theorem sizedRow_pick {d : Diagram K} (h : d.Sized) (layers : List (List Nat)) :
    ∀ row ∈ layers.map (pick d.nodes), SizedRow row :=
  List.forall_mem_map.2 fun _ _ => sizedRow_of_getElem? h fun _ hp => (mem_pick.1 hp).2

variable [IsStrictOrderedRing K]

theorem Stacked.shift {ι : Type} {is : List ι} {row : ι → List (Node K)}
    (h : Stacked (is.map row)) (dx : ι → K) (dy : K) :
    Stacked (is.map fun i => (row i).map (Node.shift (dx i) dy)) := by
  constructor
  · rw [List.forall_mem_map]
    intro i hi
    obtain ⟨top, hs⟩ := h.row (row i) (List.mem_map_of_mem hi)
    refine ⟨top + dy, ?_, ?_⟩
    · rw [List.forall_mem_map]
      intro n hn
      rw [Node.box_shift, Rect.y_shift, hs.top n hn]
    · rw [List.pairwise_map]
      exact hs.apart.imp fun hle => by simpa [Node.box_shift] using hle
  · have hapart := h.apart
    rw [List.pairwise_map] at hapart ⊢
    refine hapart.imp fun hb => ?_
    simp only [List.forall_mem_map]
    intro m hm n hn
    simpa [Node.box_shift] using hb m hm n hn

structure RowRule.Spacious (rule : RowRule K) : Prop where
  advance : ∀ n, n.width ≤ rule.advance n
  descent : ∀ row, peak (row.map Node.height) ≤ rule.descent row

variable {rule : RowRule K} {left top : K} {row : Placement K} {rows : List (Placement K)}

theorem left_le_placeRow (hr : rule.Spacious) (hs : SizedRow row) :
    ∀ p ∈ placeRow rule left top row, left ≤ p.2.box.x := by
  induction row generalizing left with
  | nil => simp [placeRow]
  | cons p row ih =>
      obtain ⟨hp, hs⟩ := List.forall_mem_cons.1 hs
      rw [placeRow_cons, List.forall_mem_cons]
      constructor
      · exact (congrArg Rect.x (p.2.box_placeCorner left top)).ge
      · intro q hq
        have hadvance := hr.advance p.2
        have hq := ih hs q hq
        linarith [hp.1]

theorem sideBySide_placeRow (hr : rule.Spacious) (left top : K) (hs : SizedRow row) :
    SideBySide top ((placeRow rule left top row).map Prod.snd) := by
  induction row generalizing left with
  | nil => exact ⟨by simp [placeRow], by simp [placeRow]⟩
  | cons p row ih =>
      obtain ⟨hp, hs⟩ := List.forall_mem_cons.1 hs
      have hbox := p.2.box_placeCorner left top
      obtain ⟨htop, hapart⟩ := ih (left + rule.advance p.2) hs
      rw [placeRow_cons, List.map_cons]
      constructor
      · exact List.forall_mem_cons.2 ⟨congrArg Rect.y hbox, htop⟩
      · refine List.pairwise_cons.2 ⟨?_, hapart⟩
        rw [List.forall_mem_map]
        intro q hq
        have hadvance := hr.advance p.2
        have hq := left_le_placeRow hr hs q hq
        rw [hbox, Rect.right]
        exact (add_le_add_right hadvance left).trans hq

theorem top_le_placedRows (hr : rule.Spacious) (widest : K) :
    ∀ placed ∈ placedRows rule widest top rows, ∀ p ∈ placed, top ≤ p.2.box.y := by
  induction rows generalizing top with
  | nil => simp [placedRows]
  | cons row rows ih =>
      rw [placedRows, List.forall_mem_cons]
      constructor
      · intro p hp
        obtain ⟨q, _, x, rfl⟩ := exists_of_mem_placeRow rule hp
        rw [Node.box_placeCorner]
      · intro placed hm p hp
        have hdescent := (peak_nonneg _).trans (hr.descent (row.map Prod.snd))
        exact (le_add_of_nonneg_right hdescent).trans (ih placed hm p hp)

theorem bottom_le_placeRow (hr : rule.Spacious) :
    ∀ p ∈ placeRow rule left top row, p.2.box.bottom ≤ top + rule.descent (row.map Prod.snd) := by
  intro p hp
  obtain ⟨q, hq, x, rfl⟩ := exists_of_mem_placeRow rule hp
  have hmem : q.2.height ∈ (row.map Prod.snd).map Node.height :=
    List.mem_map_of_mem (List.mem_map_of_mem hq)
  rw [Node.box_placeCorner]
  exact add_le_add_right ((le_peak hmem).trans (hr.descent _)) top

theorem stacked_placedRows (hr : rule.Spacious) (widest top : K) (hs : ∀ row ∈ rows, SizedRow row) :
    Stacked ((placedRows rule widest top rows).map (List.map Prod.snd)) := by
  induction rows generalizing top with
  | nil => exact ⟨by simp [placedRows], by simp [placedRows]⟩
  | cons row rows ih =>
      obtain ⟨hrow, hs⟩ := List.forall_mem_cons.1 hs
      obtain ⟨hbeside, hbelow⟩ := ih (top + rule.descent (row.map Prod.snd)) hs
      rw [placedRows, List.map_cons]
      constructor
      · exact List.forall_mem_cons.2 ⟨⟨top, sideBySide_placeRow hr _ top hrow⟩, hbeside⟩
      · refine List.pairwise_cons.2 ⟨?_, hbelow⟩
        rw [List.forall_mem_map]
        intro placed hm
        rw [List.forall_mem_map]
        intro p hp
        rw [List.forall_mem_map]
        intro q hq
        exact (bottom_le_placeRow hr p hp).trans (top_le_placedRows hr widest placed hm q hq)

theorem stacked_normalize (hr : rule.Spacious) (padding : K) {d : Diagram K} (hd : d.Sized)
    {layers : List (List Nat)} (h : Partitions layers d.nodes.length) :
    Stacked (rowsOf (normalize padding
      (settle d.nodes (placeRows rule (layers.map (pick d.nodes))))) layers) := by
  obtain ⟨widest, dx, dy, hrows⟩ := exists_rowsOf_normalize rule padding h
  rw [hrows]
  exact (stacked_placedRows hr widest 0 (sizedRow_pick hd layers)).shift (fun _ => dx) dy

end Drafting.Layout
