import Mathlib.Data.Prod.Lex
import Drafting.Proofs.Layout.FlowChart
import Drafting.Proofs.Layout.Hierarchy
import Drafting.Proofs.Page.Units

namespace Drafting

open Scalar Layout

namespace Layout

variable {α : Type} {d : Diagram α} {layer : List Nat}

theorem FlowChart.ne_nil_of_mem_layers (h : layer ∈ FlowChart.layers d) : layer ≠ [] := by
  have hkept {layers : List (List Nat)} (h : layer ∈ layers.filter fun l => !l.isEmpty) :
      layer ≠ [] := by
    simpa using (List.mem_filter.1 h).2
  rw [FlowChart.layers, FlowChart.consolidate] at h
  split at h
  next => exact hkept h
  next he =>
    rcases List.mem_append.1 h with h | h
    · exact hkept h
    · rw [List.mem_singleton.1 h]
      simpa using he

def rowLayers (d : Diagram α) : List (List Nat) :=
  if d.kind = .flow then FlowChart.layers d else Layers.layers d

theorem rowLayers_partitions (d : Diagram α) : Partitions (rowLayers d) d.nodes.length := by
  rw [rowLayers]
  split
  · exact FlowChart.layers_partitions d
  · exact Layers.layers_partitions d

theorem ne_nil_of_mem_rowLayers (h : layer ∈ rowLayers d) : layer ≠ [] := by
  rw [rowLayers] at h
  split at h
  · exact FlowChart.ne_nil_of_mem_layers h
  · exact Layers.ne_nil_of_mem_layers h

def rowRule [Scalar α] (s : LayoutSettings α) (d : Diagram α) : RowRule α :=
  if d.kind = .flow then FlowChart.rule s.flow else Hierarchy.rule s.hierarchy

end Layout

variable {K : Type} [Field K] [LinearOrder K] [FloorSemiring K]

namespace Page

def corner (r : Rect K) : K ×ₗ K := toLex (r.y, r.x)

theorem readsBefore_eq (r s : Rect K) : readsBefore r s = decide (corner r ≤ corner s) := by
  have hlex : corner r ≤ corner s ↔ r.y < s.y ∨ r.y = s.y ∧ r.x ≤ s.x := Prod.Lex.toLex_le_toLex
  change (if decide (r.y ≤ s.y) then if decide (s.y ≤ r.y) then decide (r.x ≤ s.x) else true
    else false) = _
  rcases lt_trichotomy r.y s.y with h | h | h
  · simp [hlex, h, h.le]
  · simp [hlex, h]
  · simp [hlex, h.not_gt, h.not_ge, h.ne']

theorem readsBefore_trans (r s u : Rect K) (hrs : readsBefore r s) (hsu : readsBefore s u) :
    readsBefore r u := by
  rw [readsBefore_eq, decide_eq_true_eq] at hrs hsu ⊢
  exact hrs.trans hsu

theorem readsBefore_total (r s : Rect K) : readsBefore r s || readsBefore s r := by
  simp [readsBefore_eq, le_total]

theorem pairwise_readingOrder (nodes : List (Node K)) (group : List Nat) :
    (readingOrder nodes group).Pairwise fun p q => corner p.2 ≤ corner q.2 := by
  refine (List.pairwise_mergeSort (fun p q r => readsBefore_trans p.2 q.2 r.2)
    (fun p q => readsBefore_total p.2 q.2) _).imp fun {p q} h => ?_
  rwa [readsBefore_eq, decide_eq_true_eq] at h

def boxed (nodes : List (Node K)) (group : List Nat) : List (Nat × Rect K) :=
  (pick nodes group).map fun p => (p.1, p.2.box)

theorem readingOrder_perm (nodes : List (Node K)) (group : List Nat) :
    (readingOrder nodes group).Perm (boxed nodes group) := by
  refine (List.mergeSort_perm _ _).trans (.of_eq ?_)
  rw [boxed, pick, List.map_filterMap]
  simp only [Option.map_map]
  rfl

theorem flatten_map_boxed (nodes : List (Node K)) (layers : List (List Nat)) :
    (layers.map (boxed nodes)).flatten = boxed nodes layers.flatten := by
  rw [boxed, ← flatten_map_pick, List.map_flatten, List.map_map]
  rfl

/-- Layers that lie in reading order are what is read. -/
theorem readingOrder_eq_flatten {nodes : List (Node K)} {layers : List (List Nat)}
    (h : Partitions layers nodes.length)
    (hs : (layers.map (boxed nodes)).flatten.Pairwise fun p q => corner p.2 < corner q.2) :
    readingOrder nodes (List.range nodes.length) = (layers.map (boxed nodes)).flatten := by
  have hperm : (readingOrder nodes (List.range nodes.length)).Perm
      (layers.map (boxed nodes)).flatten := by
    rw [flatten_map_boxed]
    exact (readingOrder_perm _ _).trans ((pick_perm nodes h).map _).symm
  have hcorners : ((layers.map (boxed nodes)).flatten.map fun p => corner p.2).Nodup :=
    List.pairwise_map.2 (hs.imp ne_of_lt)
  refine hperm.eq_of_pairwise ?_ (pairwise_readingOrder _ _) (hs.imp le_of_lt)
  intro p q hp hq hpq hqp
  exact List.inj_on_of_nodup_map hcorners (hperm.mem_iff.1 hp) hq (le_antisymm hpq hqp)

section

variable {t top : K} {band : List Nat}

theorem bandsFrom_append {row : List (Nat × Rect K)} (h : ∀ p ∈ row, p.2.y - top ≤ t)
    (rest : List (Nat × Rect K)) :
    bandsFrom t band top (row ++ rest) = bandsFrom t (band ++ row.map Prod.fst) top rest := by
  induction row generalizing band with
  | nil => simp
  | cons p row ih =>
      obtain ⟨hp, h⟩ := List.forall_mem_cons.1 h
      rw [List.cons_append, bandsFrom, if_pos hp, ih h, List.map_cons, List.append_assoc]
      rfl

end

/-- Runs of items whose values exceed the first one of their run by `t` at most, where each run
begins more than `t` beyond the beginning of the one before it. -/
structure MaximalRuns {ι : Type} (t : K) (value : ι → K) (runs : List (List ι)) : Prop where
  ne_nil : ∀ run ∈ runs, run ≠ []
  near : ∀ run ∈ runs, ∀ i ∈ run.head?, ∀ j ∈ run, value j - value i ≤ t
  far : runs.IsChain fun run next => ∀ i ∈ run.head?, ∀ j ∈ next.head?, t < value j - value i

section

variable {ι : Type} {t : K} {value : ι → K} {run : List ι} {runs : List (List ι)} {i : ι}

theorem maximalRuns_nil : MaximalRuns t value [] := by
  constructor <;> simp

theorem maximalRuns_cons : MaximalRuns t value ((i :: run) :: runs) ↔
    (∀ j ∈ i :: run, value j - value i ≤ t) ∧
      (∀ next ∈ runs.head?, ∀ j ∈ next.head?, t < value j - value i) ∧
      MaximalRuns t value runs := by
  constructor
  · rintro ⟨hne, hnear, hfar⟩
    rw [List.forall_mem_cons] at hne hnear
    rw [List.isChain_cons] at hfar
    exact ⟨hnear.1 i rfl, fun next hn => hfar.1 next hn i rfl, hne.2, hnear.2, hfar.2⟩
  · rintro ⟨hnear, hfar, hr⟩
    constructor
    case ne_nil => exact List.forall_mem_cons.2 ⟨List.cons_ne_nil _ _, hr.ne_nil⟩
    case near =>
      refine List.forall_mem_cons.2 ⟨?_, hr.near⟩
      rintro _ ⟨⟩
      exact hnear
    case far =>
      refine List.isChain_cons.2 ⟨fun next hn => ?_, hr.far⟩
      rintro _ ⟨⟩
      exact hfar next hn

end

section

variable {t : K} {p : Nat × Rect K} {behind : List (Nat × Rect K)}

/-- Maximal runs are found again. -/
theorem bandsFrom_of_maximalRuns {runs : List (List (Nat × Rect K))}
    (h : MaximalRuns t (fun q : Nat × Rect K => q.2.y) ((p :: behind) :: runs)) :
    bandsFrom t [p.1] p.2.y (behind ++ runs.flatten) =
      ((p :: behind) :: runs).map (List.map Prod.fst) := by
  induction runs generalizing p behind with
  | nil =>
      obtain ⟨hnear, -, -⟩ := maximalRuns_cons.1 h
      rw [List.flatten_nil, bandsFrom_append (List.forall_mem_cons.1 hnear).2]
      rfl
  | cons next runs ih =>
      obtain ⟨hnear, hfar, hr⟩ := maximalRuns_cons.1 h
      obtain ⟨q, others, rfl⟩ := List.exists_cons_of_ne_nil (hr.ne_nil next List.mem_cons_self)
      have hq : ¬ q.2.y - p.2.y ≤ t := not_le.2 (hfar _ rfl q rfl)
      rw [bandsFrom_append (List.forall_mem_cons.1 hnear).2, List.singleton_append,
        List.flatten_cons, List.cons_append, bandsFrom, if_neg hq, ih hr]
      rfl

/-- Rows of rectangles with their tops at one height each, further below those before them than the
tolerance allows. -/
structure FarApart (t : K) (rows : List (List (Nat × Rect K))) : Prop where
  ne_nil : ∀ row ∈ rows, row ≠ []
  level : ∀ row ∈ rows, ∀ p ∈ row, ∀ q ∈ row, p.2.y = q.2.y
  below : rows.Pairwise fun upper lower => ∀ p ∈ upper, ∀ q ∈ lower, t < q.2.y - p.2.y

theorem FarApart.maximalRuns {rows : List (List (Nat × Rect K))} (h : FarApart t rows)
    (ht : 0 ≤ t) : MaximalRuns t (fun q : Nat × Rect K => q.2.y) rows where
  ne_nil := h.ne_nil
  near row hr p hp q hq := by
    rw [h.level row hr q hq p (List.mem_of_mem_head? hp), sub_self]
    exact ht
  far := h.below.isChain.imp fun _ _ hb p hp q hq =>
    hb p (List.mem_of_mem_head? hp) q (List.mem_of_mem_head? hq)

end

end Page

namespace Layout

def Spaced (t : K) (rows : List (List (Node K))) : Prop :=
  rows.Pairwise fun upper lower => ∀ m ∈ upper, ∀ n ∈ lower, t < n.box.y - m.box.y

section

variable {rule : RowRule K} {t : K}

theorem Spaced.shift {ι : Type} {is : List ι} {row : ι → List (Node K)}
    (h : Spaced t (is.map row)) (dx : ι → K) (dy : K) :
    Spaced t (is.map fun i => (row i).map (Node.shift (dx i) dy)) := by
  rw [Spaced, List.pairwise_map] at h ⊢
  refine h.imp fun hb => ?_
  simp only [List.forall_mem_map]
  intro m hm n hn
  simpa [Node.box_shift] using hb m hm n hn

variable [IsStrictOrderedRing K]

theorem spaced_placedRows (hr : rule.Spacious) (widest top : K) {rows : List (Placement K)}
    (h : ∀ row ∈ rows.dropLast, t < rule.descent (row.map Prod.snd)) :
    Spaced t ((placedRows rule widest top rows).map (List.map Prod.snd)) := by
  induction rows generalizing top with
  | nil => exact List.Pairwise.nil
  | cons row rows ih =>
      cases rows with
      | nil => exact List.pairwise_singleton _ _
      | cons next rows =>
          rw [List.dropLast_cons_cons, List.forall_mem_cons] at h
          rw [placedRows, List.map_cons]
          refine List.pairwise_cons.2 ⟨?_, ih (top + rule.descent (row.map Prod.snd)) h.2⟩
          simp only [List.forall_mem_map]
          intro placed hm p hp q hq
          obtain ⟨_, _, x, rfl⟩ := exists_of_mem_placeRow rule hp
          have hle := top_le_placedRows hr widest placed hm q hq
          rw [Node.box_placeCorner]
          linarith [h.1]

def Clears (rule : RowRule K) (t : K) (d : Diagram K) (layers : List (List Nat)) : Prop :=
  ∀ layer ∈ layers.dropLast, t < rule.descent ((pick d.nodes layer).map Prod.snd)

instance (rule : RowRule K) (t : K) (d : Diagram K) (layers : List (List Nat)) :
    Decidable (Clears rule t d layers) :=
  inferInstanceAs (Decidable (∀ layer ∈ layers.dropLast, _))

theorem spaced_normalize (hr : rule.Spacious) (padding : K) {d : Diagram K}
    {layers : List (List Nat)} (h : Partitions layers d.nodes.length)
    (hc : Clears rule t d layers) :
    Spaced t (rowsOf (normalize padding
      (settle d.nodes (placeRows rule (layers.map (pick d.nodes))))) layers) := by
  obtain ⟨widest, dx, dy, hrows⟩ := exists_rowsOf_normalize rule padding h
  rw [hrows]
  refine (spaced_placedRows hr widest 0 ?_).shift (fun _ => dx) dy
  rw [← List.map_dropLast, List.forall_mem_map]
  exact hc

end

end Layout

namespace Page

theorem map_fst_boxed {nodes : List (Node K)} {layers : List (List Nat)}
    (h : Partitions layers nodes.length) :
    (layers.map (boxed nodes)).map (List.map Prod.fst) = layers := by
  conv => rhs; rw [← map_map_fst_pick h]
  rw [List.map_map]
  refine List.map_congr_left fun layer _ => ?_
  rw [Function.comp_apply, boxed, List.map_map]
  rfl

theorem exists_of_mem_boxed {nodes : List (Node K)} {layer : List Nat} {p : Nat × Rect K}
    (h : p ∈ boxed nodes layer) : ∃ n ∈ (pick nodes layer).map Prod.snd, n.box = p.2 := by
  obtain ⟨q, hq, rfl⟩ := List.mem_map.1 h
  exact ⟨q.2, List.mem_map_of_mem hq, rfl⟩

variable [IsStrictOrderedRing K] {t : K} {nodes : List (Node K)} {layers : List (List Nat)}

/-- What stands in rows reads row by row. -/
theorem pairwise_corner (hs : Stacked (rowsOf nodes layers))
    (hn : ∀ n ∈ nodes, 0 < n.width ∧ 0 < n.height) :
    (layers.map (boxed nodes)).flatten.Pairwise fun p q => corner p.2 < corner q.2 := by
  have hsize {layer : List Nat} : ∀ n ∈ (pick nodes layer).map Prod.snd,
      0 < n.box.width ∧ 0 < n.box.height := by
    rw [List.forall_mem_map]
    intro p hp
    rw [p.2.width_box, p.2.height_box]
    exact hn p.2 (List.mem_of_getElem? (mem_pick.1 hp).2)
  rw [List.pairwise_flatten]
  constructor
  · rw [List.forall_mem_map]
    intro layer hl
    obtain ⟨top, htop, hapart⟩ := hs.row _ (List.mem_map_of_mem hl)
    rw [List.pairwise_map] at hapart
    rw [boxed, List.pairwise_map]
    refine hapart.imp_of_mem fun {p q} hp hq hle => Prod.Lex.toLex_lt_toLex.2 (.inr ⟨?_, ?_⟩)
    · exact (htop _ (List.mem_map_of_mem hp)).trans (htop _ (List.mem_map_of_mem hq)).symm
    · exact (lt_add_of_pos_right _ (hsize _ (List.mem_map_of_mem hp)).1).trans_le hle
  · have hbelow := hs.apart
    rw [rowsOf, List.pairwise_map] at hbelow
    rw [List.pairwise_map]
    refine hbelow.imp fun hb p hp q hq => Prod.Lex.toLex_lt_toLex.2 (.inl ?_)
    obtain ⟨m, hm, hmp⟩ := exists_of_mem_boxed hp
    obtain ⟨n, hn, hnq⟩ := exists_of_mem_boxed hq
    rw [← hmp, ← hnq]
    exact (lt_add_of_pos_right _ (hsize m hm).2).trans_le (hb m hm n hn)

omit [IsStrictOrderedRing K] in
theorem farApart_boxed (h : Partitions layers nodes.length) (hne : ∀ layer ∈ layers, layer ≠ [])
    (hs : Stacked (rowsOf nodes layers)) (hb : Spaced t (rowsOf nodes layers)) :
    FarApart t (layers.map (boxed nodes)) := by
  constructor
  case ne_nil =>
    intro row hr he
    have hkeys : row.map Prod.fst ∈ layers := by
      rw [← map_fst_boxed h]
      exact List.mem_map_of_mem hr
    exact hne _ hkeys (by rw [he]; rfl)
  case level =>
    rw [List.forall_mem_map]
    intro layer hl p hp q hq
    obtain ⟨top, htop, -⟩ := hs.row _ (List.mem_map_of_mem hl)
    obtain ⟨m, hm, hmp⟩ := exists_of_mem_boxed hp
    obtain ⟨n, hn, hnq⟩ := exists_of_mem_boxed hq
    rw [← hmp, ← hnq, htop m hm, htop n hn]
  case below =>
    rw [Spaced, rowsOf, List.pairwise_map] at hb
    rw [List.pairwise_map]
    refine hb.imp fun hb p hp q hq => ?_
    obtain ⟨m, hm, hmp⟩ := exists_of_mem_boxed hp
    obtain ⟨n, hn, hnq⟩ := exists_of_mem_boxed hq
    rw [← hmp, ← hnq]
    exact hb m hm n hn

theorem bands_eq_layers (h : Partitions layers nodes.length) (hne : ∀ layer ∈ layers, layer ≠ [])
    (hn : ∀ n ∈ nodes, 0 < n.width ∧ 0 < n.height) (hs : Stacked (rowsOf nodes layers))
    (ht : 0 ≤ t) (hb : Spaced t (rowsOf nodes layers)) : bands t nodes = layers := by
  have hfar := farApart_boxed h hne hs hb
  rw [bands, readingOrder_eq_flatten h (pairwise_corner hs hn)]
  conv => rhs; rw [← map_fst_boxed h]
  generalize layers.map (boxed nodes) = rows at hfar ⊢
  cases rows with
  | nil => rfl
  | cons row rows =>
      obtain ⟨p, behind, rfl⟩ := List.exists_cons_of_ne_nil (hfar.ne_nil row List.mem_cons_self)
      exact bandsFrom_of_maximalRuns (hfar.maximalRuns ht)

end Page

namespace Layout

variable [IsStrictOrderedRing K] {s : LayoutSettings K} {d : Diagram K}

/-- A flow chart has its rows where a hierarchy has them, but for their distances from the left. -/
theorem exists_rowsOf_rowLayers (s : LayoutSettings K) (hk : d.kind = .flow ∨ d.kind = .generic) :
    let nodes := normalize s.padding
      (settle d.nodes (placeRows (rowRule s d) ((rowLayers d).map (pick d.nodes))))
    ∃ dx : List Nat → K, rowsOf (place s d) (rowLayers d) = (rowLayers d).map fun l =>
      ((pick nodes l).map Prod.snd).map (Node.shift (dx l) 0) := by
  intro nodes
  rcases hk with hk | hk
  · have hl : rowLayers d = FlowChart.layers d := if_pos hk
    have hr : rowRule s d = FlowChart.rule s.flow := if_pos hk
    obtain ⟨dx, hrows, -⟩ := FlowChart.exists_rowsOf_place s d
    refine ⟨dx, ?_⟩
    simp only [nodes, hl, hr, place, hk]
    exact hrows
  · have hn : d.kind ≠ .flow := by simp [hk]
    have hl : rowLayers d = Layers.layers d := if_neg hn
    have hr : rowRule s d = Hierarchy.rule s.hierarchy := if_neg hn
    have hid : Node.shift (0 : K) 0 = id := by
      funext n
      simp [Node.shift]
    refine ⟨fun _ => 0, ?_⟩
    simp only [nodes, hl, hr, place, hk, hid, List.map_id]
    rfl

theorem spacious_rowRule (d : Diagram K) (hn : 0 ≤ s.flow.nodeSeparation)
    (hr : 0 ≤ s.flow.rankSeparation) (hm : 0 ≤ s.hierarchy.nodeMargin)
    (hl : 0 ≤ s.hierarchy.layerMargin) : (rowRule s d).Spacious := by
  rw [rowRule]
  split
  · exact FlowChart.spacious_rule hn hr
  · exact Hierarchy.spacious_rule hm hl

end Layout

/-- The tops of nodes give their layers back: the bands of a flow chart or a plain graph are the
layers it is laid out in, when every row begins further below the one before it than the
tolerance. -/
theorem Diagram.bands_layout_eq_rowLayers [IsStrictOrderedRing K] (s : LayoutSettings K)
    (d : Diagram K) (hk : d.kind = .flow ∨ d.kind = .generic) (hd : d.Sized)
    (hn : 0 ≤ s.flow.nodeSeparation) (hr : 0 ≤ s.flow.rankSeparation)
    (hm : 0 ≤ s.hierarchy.nodeMargin)
    (hl : 0 ≤ s.hierarchy.layerMargin) (t : K) (ht : 0 ≤ t)
    (hc : Clears (rowRule s d) t d (rowLayers d)) :
    Page.bands t (d.layout s).nodes = rowLayers d := by
  have hlayers := rowLayers_partitions d
  have hspacious := spacious_rowRule d hn hr hm hl
  obtain ⟨dx, hrows⟩ := exists_rowsOf_rowLayers s hk
  have hstack := (stacked_normalize hspacious s.padding hd hlayers).shift dx 0
  have hspaced := (spaced_normalize hspacious s.padding hlayers hc).shift dx 0
  rw [← hrows, ← hd.nodes_layout s] at hstack hspaced
  have hlength : Partitions (rowLayers d) (d.layout s).nodes.length := by
    rwa [length_layout]
  exact Page.bands_eq_layers hlength (fun _ => ne_nil_of_mem_rowLayers) (hd.layout s) hstack ht
    hspaced

theorem Diagram.shortcut_bands_layout :
    (Diagram.shortcut.kind = .flow ∨ Diagram.shortcut.kind = .generic) ∧
      Diagram.shortcut.Sized ∧ 0 ≤ LayoutSettings.dense.flow.nodeSeparation ∧
      0 ≤ LayoutSettings.dense.flow.rankSeparation ∧
      0 ≤ LayoutSettings.dense.hierarchy.nodeMargin ∧
      0 ≤ LayoutSettings.dense.hierarchy.layerMargin ∧ (0 : ℚ) ≤ 4 / 5 ∧
      Clears (rowRule .dense Diagram.shortcut) (4 / 5) Diagram.shortcut
        (rowLayers Diagram.shortcut) ∧
      Page.bands (4 / 5) (Diagram.shortcut.layout .dense).nodes = [[0], [2], [1, 3]] := by
  have hk : Diagram.shortcut.kind = .flow ∨ Diagram.shortcut.kind = .generic := by decide
  have hd : Diagram.shortcut.Sized := by decide +kernel
  have hr : (0 : ℚ) ≤ 1 / 2 := by decide +kernel
  have ht : (0 : ℚ) ≤ 4 / 5 := by decide +kernel
  have hlayers : rowLayers Diagram.shortcut = [[0], [2], [1, 3]] := by decide +kernel
  have hc : Clears (rowRule .dense Diagram.shortcut) (4 / 5) Diagram.shortcut
      (rowLayers Diagram.shortcut) := by
    rw [hlayers]
    decide +kernel
  have hbands :=
    Diagram.bands_layout_eq_rowLayers .dense Diagram.shortcut hk hd le_rfl hr le_rfl hr _ ht hc
  rw [hlayers] at hbands
  exact ⟨hk, hd, le_rfl, hr, le_rfl, hr, ht, hc, hbands⟩

end Drafting
