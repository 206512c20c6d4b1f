import Drafting.Proofs.Layout.FlowChart
import Drafting.Number.Binary32

namespace Drafting

open Layout Scalar

section

variable {α : Type} [Scalar α]

/-- The second node is the first one, wherever it stands, with the standard size of its kind where
its own is not positive. Every size is positive then. -/
structure Node.IsFitted (n m : Node α) : Prop where
  id : m.id = n.id
  kind : m.kind = n.kind
  label : m.label = n.label
  data : m.data = n.data
  width : 0 < m.width ∧ m.width = if 0 < n.width then n.width else (standardSize n.kind).1
  height : 0 < m.height ∧ m.height = if 0 < n.height then n.height else (standardSize n.kind).2

structure Diagram.IsFitted (d e : Diagram α) : Prop where
  kind : e.kind = d.kind
  nodes : List.Forall₂ Node.IsFitted d.nodes e.nodes
  edges : e.edges = d.edges
  title : e.title = d.title
  skipped : e.skipped = d.skipped
  unresolved : e.unresolved = d.unresolved

theorem Node.isFitted_of_unplaced_eq
    (hstandard : ∀ kind, 0 < (standardSize kind : α × α).1 ∧ 0 < (standardSize kind : α × α).2)
    {n m : Node α} (h : (ensureSize n).unplaced = m.unplaced) : n.IsFitted m := by
  have hpos {a b : α} (hb : 0 < b) : 0 < if 0 < a then a else b := by
    split
    next ha => exact ha
    next => exact hb
  have hw := congrArg Node.width h
  have hh := congrArg Node.height h
  change (ensureSize n).width = m.width at hw
  change (ensureSize n).height = m.height at hh
  constructor
  case id => exact (congrArg Node.id h).symm
  case kind => exact (congrArg Node.kind h).symm
  case label => exact (congrArg Node.label h).symm
  case data => exact (congrArg Node.data h).symm
  case width => exact hw ▸ ⟨hpos (hstandard n.kind).1, rfl⟩
  case height => exact hh ▸ ⟨hpos (hstandard n.kind).2, rfl⟩

theorem Diagram.isFitted_layout
    (hstandard : ∀ kind, 0 < (standardSize kind : α × α).1 ∧ 0 < (standardSize kind : α × α).2)
    (s : LayoutSettings α) (d : Diagram α) : d.IsFitted (d.layout s) := by
  have hnodes : List.Forall₂ (· = ·) (d.sized.nodes.map Node.unplaced)
      ((d.layout s).nodes.map Node.unplaced) := by
    rw [List.forall₂_eq_eq_eq]
    exact (congrArg Diagram.nodes (unplaced_layout s d)).symm
  rw [Diagram.sized, List.map_map, List.forall₂_map_left_iff, List.forall₂_map_right_iff] at hnodes
  exact ⟨rfl, hnodes.imp fun _ _ => Node.isFitted_of_unplaced_eq hstandard, rfl, rfl, rfl, rfl⟩

/-- All but flow charts are moved once, when they are complete. -/
theorem Layout.place_eq_normalize (s : LayoutSettings α) {d : Diagram α} (hk : d.kind ≠ .flow) :
    ∃ nodes, nodes.length = d.nodes.length ∧ place s d = normalize s.padding nodes := by
  have hlength : (place s d).length = d.nodes.length := by
    simpa using congrArg List.length (map_unplaced_place s d)
  have hnodes : ∃ nodes, place s d = normalize s.padding nodes := by
    rw [place]
    cases h : d.kind with
    | flow => exact absurd h hk
    | classes | generic | mindmap | sequence | useCase => exact ⟨_, rfl⟩
  obtain ⟨nodes, hplace⟩ := hnodes
  rw [hplace, length_normalize] at hlength
  exact ⟨nodes, hlength, hplace⟩

end

theorem Binary32.standardSize_pos (kind : NodeKind) :
    0 < (standardSize kind : Float32 × Float32).1 ∧
      0 < (standardSize kind : Float32 × Float32).2 := by
  cases kind <;> decide +kernel

variable {K : Type} [Field K] [LinearOrder K] [FloorSemiring K]

theorem Node.extent_perm {nodes others : List (Node K)} (h : nodes.Perm others) :
    extent nodes = extent others :=
  Rect.enclosing?_perm (h.map box)

theorem Layout.exists_extent_normalize [IsOrderedAddMonoid K] (padding : K) {nodes : List (Node K)}
    (h : nodes ≠ []) :
    ∃ width height,
      Node.extent (normalize padding nodes) = some ⟨padding, padding, width, height⟩ := by
  obtain ⟨r, hr⟩ := Option.ne_none_iff_exists'.1 (mt Page.extent_eq_none.1 h)
  exact ⟨r.width, r.height, extent_normalize hr⟩

theorem Layout.exists_extent_place [IsOrderedAddMonoid K] (s : LayoutSettings K) {d : Diagram K}
    (hk : d.kind ≠ .flow) (hd : d.nodes ≠ []) :
    ∃ width height, Node.extent (place s d) = some ⟨s.padding, s.padding, width, height⟩ := by
  obtain ⟨nodes, hlength, hplace⟩ := place_eq_normalize s hk
  rw [hplace]
  refine exists_extent_normalize s.padding ?_
  rw [← List.length_pos_iff, hlength]
  exact List.length_pos_iff.2 hd

variable [IsStrictOrderedRing K]

namespace Layout.FlowChart

theorem extent_shiftRow {row : Placement K} {r : Rect K}
    (h : Node.extent (row.map Prod.snd) = some r) (minX : K) :
    Node.extent ((shiftRow minX row).map Prod.snd) = some (r.shift (max r.x minX - r.x) 0) := by
  rw [shiftRow_of_extent h, map_snd_onNodes, Node.extent_map_shift, h, Option.map_some]

/-- Rows that move to the right each for itself begin together where the bound or the leftmost of
them does, whichever lies further right. -/
theorem exists_extent_shiftRows (minX : K) {rows : List (Placement K)} {r : Rect K}
    (h : Node.extent (rows.flatten.map Prod.snd) = some r) :
    ∃ r', Node.extent ((rows.flatMap (shiftRow minX)).map Prod.snd) = some r' ∧
      r'.x = max r.x minX ∧ r'.y = r.y := by
  induction rows generalizing r with
  | nil => cases h
  | cons row rows ih =>
      rw [List.flatten_cons, List.map_append] at h
      rw [List.flatMap_cons, List.map_append]
      cases hrow : Node.extent (row.map Prod.snd) with
      | none =>
          obtain rfl : row = [] := List.map_eq_nil_iff.1 (Page.extent_eq_none.1 hrow)
          exact ih h
      | some a =>
          have ha := extent_shiftRow hrow minX
          cases hrows : Node.extent (rows.flatten.map Prod.snd) with
          | none =>
              have hnil : rows.flatten = [] := List.map_eq_nil_iff.1 (Page.extent_eq_none.1 hrows)
              have hshifted : rows.flatMap (shiftRow minX) = [] := by
                refine List.flatMap_eq_nil_iff.2 fun l hl => ?_
                rw [List.flatten_eq_nil_iff.1 hnil l hl]
                rfl
              rw [hnil, List.map_nil, List.append_nil, hrow] at h
              cases h
              rw [hshifted, List.map_nil, List.append_nil, ha]
              exact ⟨_, rfl, by simp, by simp⟩
          | some b =>
              obtain ⟨b', hb', hx, hy⟩ := ih hrows
              have hjoin : a.join b = r := by
                rw [Node.extent, List.map_append, Rect.enclosing?_append hrow hrows] at h
                exact Option.some_inj.1 h
              refine ⟨(a.shift (max a.x minX - a.x) 0).join b', ?_, ?_, ?_⟩
              · rw [Node.extent, List.map_append]
                exact Rect.enclosing?_append ha hb'
              · rw [Rect.x_join, hx, ← hjoin, Rect.x_join, Rect.x_shift, add_sub_cancel,
                  max_min_distrib_right]
              · rw [Rect.y_join, hy, ← hjoin, Rect.y_join, Rect.y_shift, add_zero]

theorem exists_extent_place (s : LayoutSettings K) {d : Diagram K} (hd : d.nodes ≠ []) :
    ∃ r, Node.extent (place s d) = some r ∧ r.x = max s.padding s.flow.minX ∧
      r.y = s.padding := by
  let nodes := normalize s.padding
    (settle d.nodes (placeRows (rule s.flow) ((layers d).map (pick d.nodes))))
  have hlayers : Partitions (layers d) nodes.length := by
    rw [length_normalize, length_settle]
    exact layers_partitions d
  have hrows : (((layers d).map (pick nodes)).flatten.map Prod.snd).Perm nodes := by
    rw [List.map_flatten, List.map_map]
    exact flatten_rowsOf_perm hlayers
  have hplaced := (covers_shiftRow s.flow.minX hlayers).settle_perm
  have hne : settle d.nodes (placeRows (rule s.flow) ((layers d).map (pick d.nodes))) ≠ [] := by
    rw [← List.length_pos_iff, length_settle]
    exact List.length_pos_iff.2 hd
  obtain ⟨width, height, hextent⟩ := exists_extent_normalize s.padding hne
  obtain ⟨r, hr, hx, hy⟩ := exists_extent_shiftRows s.flow.minX
    ((Node.extent_perm hrows).trans hextent)
  rw [List.flatMap_map, ← Node.extent_perm hplaced] at hr
  exact ⟨r, hr, hx, hy⟩

end Layout.FlowChart

theorem Layout.standardSize_pos (kind : NodeKind) :
    0 < (standardSize kind : K × K).1 ∧ 0 < (standardSize kind : K × K).2 := by
  have hcast {m n : ℕ} (h : m < n) : (m : K) < n := Nat.cast_lt.2 h
  rw [← zero_eq]
  cases kind <;> exact ⟨hcast (by decide), hcast (by decide)⟩

/-- A layout keeps all of a diagram but places and missing sizes. Its bounds begin at the padding in
both directions, those of a flow chart no further left than its bound. -/
theorem Diagram.layout_fitted_extent :
    (∀ (s : LayoutSettings Float32) (d : Diagram Float32), d.IsFitted (d.layout s)) ∧
      ∀ (s : LayoutSettings K) (d : Diagram K), d.IsFitted (d.layout s) ∧
        (d.nodes ≠ [] → ∃ r, (d.layout s).extent = some r ∧ r.y = s.padding ∧
          r.x = if d.kind = .flow then max s.padding s.flow.minX else s.padding) := by
  have hstandard : ∀ kind, 0 < (standardSize kind : K × K).1 ∧ 0 < (standardSize kind : K × K).2 :=
    standardSize_pos
  rw [← zero_eq] at hstandard
  refine ⟨isFitted_layout Binary32.standardSize_pos, fun s d => ⟨isFitted_layout hstandard s d, ?_⟩⟩
  intro hd
  have hsized : d.sized.nodes ≠ [] := by simpa [sized] using hd
  split
  next hk =>
    have hplace : (d.layout s).nodes = FlowChart.place s d.sized := by
      change place s d.sized = _
      rw [place, show d.sized.kind = .flow from hk]
    obtain ⟨r, hr, hx, hy⟩ := FlowChart.exists_extent_place s hsized
    exact ⟨r, (congrArg Node.extent hplace).trans hr, hy, hx⟩
  next hk =>
    obtain ⟨width, height, hr⟩ := exists_extent_place s (d := d.sized) hk hsized
    exact ⟨_, hr, rfl, rfl⟩

def LayoutSettings.crowded : LayoutSettings ℚ :=
  { LayoutSettings.dense with
    hierarchy := ⟨-300, -200, -500, -100⟩
    flow := ⟨-300, -90, 700⟩ }

def Diagram.twoRows (kind : DiagramKind) : Diagram ℚ where
  kind := kind
  nodes :=
    [⟨"node-1", .start, 3, 4, 0, 80, "start", none⟩,
      ⟨"node-2", .process, 3, 4, 5000, 1 / 3, "work", none⟩,
      ⟨"node-3", .finish, 3, 4, 80, -1, "done", none⟩]
  edges :=
    [⟨"edge-1", "node-1", "node-2", none, some .flow, none⟩,
      ⟨"edge-2", "node-1", "node-3", none, some .flow, none⟩]
  title := some "Draft"
  skipped := [2]
  unresolved := []

theorem Diagram.twoRows_layout_fitted_extent :
    (twoRows .flow).nodes ≠ [] ∧ (twoRows .classes).nodes ≠ [] ∧
      (twoRows .flow).IsFitted ((twoRows .flow).layout .crowded) ∧
      (∃ r, ((twoRows .flow).layout .crowded).extent = some r ∧ r.y = -1000 ∧ r.x = 700) ∧
      ∃ r, ((twoRows .classes).layout .crowded).extent = some r ∧ r.y = -1000 ∧ r.x = -1000 := by
  have hf : (twoRows .flow).nodes ≠ [] := List.cons_ne_nil _ _
  have hc : (twoRows .classes).nodes ≠ [] := List.cons_ne_nil _ _
  have hmax : max (-1000 : ℚ) 700 = 700 := by decide +kernel
  have hflow := layout_fitted_extent.2 .crowded (twoRows .flow)
  have hclasses := layout_fitted_extent.2 .crowded (twoRows .classes)
  obtain ⟨r, hr, hy, hx⟩ := hflow.2 hf
  exact ⟨hf, hc, hflow.1, ⟨r, hr, hy, hmax ▸ hx⟩, hclasses.2 hc⟩

end Drafting
