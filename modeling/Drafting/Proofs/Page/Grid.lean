import Drafting.Proofs.Layout.Boxes
import Drafting.Proofs.Page.Limits

namespace Drafting

open Scalar

variable {K : Type} [Field K] [LinearOrder K] [FloorSemiring K]

namespace Rect

def Owns (r : Rect K) (p : Point K) : Prop :=
  (r.x ≤ p.x ∧ p.x < r.right) ∧ r.y ≤ p.y ∧ p.y < r.bottom

instance (r : Rect K) (p : Point K) : Decidable (r.Owns p) :=
  inferInstanceAs (Decidable ((_ ∧ _) ∧ _ ∧ _))

theorem owns_center [IsStrictOrderedRing K] {r s : Rect K} (h : r.Holds s) (hw : 0 < s.width)
    (hh : 0 < s.height) : r.Owns s.center := by
  obtain ⟨⟨hl, hr⟩, ht, hb⟩ := h
  rw [right] at hr
  rw [bottom] at hb
  simp only [Owns, center]
  refine ⟨⟨?_, ?_⟩, ?_, ?_⟩ <;> linarith

end Rect

namespace Page

def Cell.rect (area : Rect K) (width height : K) (c : Cell) : Rect K :=
  ⟨area.x + c.column * width, area.y + c.row * height, width, height⟩

theorem nodes_select_eq_filter {d : Diagram K} (connected : List Edge) {group : List Nat}
    {q : Node K → Bool} (h : ∀ i n, d.nodes[i]? = some n → (i ∈ group ↔ q n)) :
    (select d connected group).nodes = d.nodes.filter q := by
  have hz : d.nodes.zipIdx.map Prod.fst = d.nodes := List.zipIdx_map_fst 0 d.nodes
  conv => rhs; rw [← hz, List.filter_map]
  refine congrArg (List.map Prod.fst) (List.filter_congr fun p hp => ?_)
  rw [Bool.eq_iff_iff, List.contains_iff_mem]
  exact h p.2 p.1 (List.mem_zipIdx_iff_getElem?.1 hp)

section

variable [IsStrictOrderedRing K] {step offset length : K}

/-- What lies inside the area never lies beyond the last cell. -/
theorem min_floorNat_eq (hs : 0 < step) (ho : 0 ≤ offset) (hl : offset < length) :
    min (floorNat (offset / step)) (max (ceilNat (length / step)) 1 - 1) =
      floorNat (offset / step) := by
  have hlt : floorNat (offset / step) < ceilNat (length / step) :=
    Nat.floor_lt_ceil_of_lt_of_pos (div_lt_div_of_pos_right hl hs) (div_pos (ho.trans_lt hl) hs)
  omega

theorem floorNat_eq_iff (hs : 0 < step) (ho : 0 ≤ offset) {k : Nat} :
    floorNat (offset / step) = k ↔ k * step ≤ offset ∧ offset < k * step + step := by
  have hk : (k : K) * step + step = (k + 1) * step := by ring
  rw [hk, ← le_div_iff₀ hs, ← div_lt_iff₀ hs]
  exact Nat.floor_eq_iff (div_nonneg ho hs.le)

theorem Cell.holding_eq_iff {area : Rect K} {width height : K} (hw : 0 < width) (hh : 0 < height)
    {p : Point K} (hp : area.Owns p) (c : Cell) :
    Cell.holding area width height p = c ↔ (c.rect area width height).Owns p := by
  obtain ⟨⟨hl, hr⟩, ht, hb⟩ := hp
  have hx : 0 ≤ p.x - area.x := sub_nonneg.2 hl
  have hy : 0 ≤ p.y - area.y := sub_nonneg.2 ht
  have hcell : Cell.holding area width height p =
      ⟨floorNat ((p.y - area.y) / height), floorNat ((p.x - area.x) / width)⟩ :=
    congrArg₂ Cell.mk (min_floorNat_eq hh hy (sub_lt_iff_lt_add'.2 hb))
      (min_floorNat_eq hw hx (sub_lt_iff_lt_add'.2 hr))
  cases c
  rw [hcell, Cell.mk.injEq, floorNat_eq_iff hh hy, floorNat_eq_iff hw hx]
  simp only [Rect.Owns, Cell.rect, Rect.right, Rect.bottom]
  constructor
  · rintro ⟨⟨_, _⟩, _, _⟩
    refine ⟨⟨?_, ?_⟩, ?_, ?_⟩ <;> linarith
  · rintro ⟨⟨_, _⟩, _, _⟩
    refine ⟨⟨?_, ?_⟩, ?_, ?_⟩ <;> linarith

end

def Within (s : PageSettings K) (r : Rect K) : Prop :=
  r.width ≤ s.maxWidth + s.overlapMargin ∧ r.height ≤ s.maxHeight + s.overlapMargin

instance (s : PageSettings K) (r : Rect K) : Decidable (Within s r) :=
  inferInstanceAs (Decidable (_ ∧ _))

theorem fits_iff {s : PageSettings K} {r : Rect K} : fits s r ↔ Within s r := by
  simp [fits, Within]

theorem exists_sides {members : List (Node K)} {hull : Rect K}
    (h : hull.IsHull (members.map Node.box)) :
    (∃ m ∈ members, m.box.x = hull.x) ∧ (∃ m ∈ members, m.box.right = hull.right) ∧
      (∃ m ∈ members, m.box.y = hull.y) ∧ ∃ m ∈ members, m.box.bottom = hull.bottom := by
  have hside {side : Rect K → K} {a : K} (ha : a ∈ side '' {r | r ∈ members.map Node.box}) :
      ∃ m ∈ members, side m.box = a := by
    obtain ⟨_, hr, he⟩ := ha
    obtain ⟨m, hm, rfl⟩ := List.mem_map.1 hr
    exact ⟨m, hm, he⟩
  exact ⟨hside h.left.1, hside h.right.1, hside h.top.1, hside h.bottom.1⟩

/-- The nodes that have their centres in a cell. Together they reach beyond the cell by less than
half a node on each side, and not at all if each of them lies inside. -/
structure FillCell (nodes members : List (Node K)) (hull cell : Rect K) : Prop where
  shown : members = nodes.filter fun n => cell.Owns n.center
  width : ∃ m ∈ members, ∃ n ∈ members, hull.width < cell.width + (m.width + n.width) / 2
  height : ∃ m ∈ members, ∃ n ∈ members, hull.height < cell.height + (m.height + n.height) / 2
  inside : (∀ n ∈ members, cell.Holds n.box) → hull.width ≤ cell.width ∧ hull.height ≤ cell.height

section

variable [IsStrictOrderedRing K] {s : PageSettings K} {d : Diagram K}

theorem FillCell.of_isHull {nodes members : List (Node K)} {hull cell : Rect K}
    (h : hull.IsHull (members.map Node.box))
    (hs : members = nodes.filter fun n => cell.Owns n.center) :
    FillCell nodes members hull cell := by
  have hown {n : Node K} (hn : n ∈ members) : cell.Owns n.center := by
    rw [hs] at hn
    exact of_decide_eq_true (List.mem_filter.1 hn).2
  obtain ⟨⟨left, hl, hx⟩, ⟨right, hr, hright⟩, ⟨top, ht, hy⟩, bottom, hb, hbottom⟩ :=
    exists_sides h
  simp only [Rect.right, Rect.bottom, Node.width_box, Node.height_box] at hright hbottom
  constructor
  case shown => exact hs
  case width =>
    refine ⟨left, hl, right, hr, ?_⟩
    have hfirst := (hown hl).1.1
    have hlast := (hown hr).1.2
    simp only [Node.center, Rect.center, Rect.right, Node.width_box] at hfirst hlast
    linarith
  case height =>
    refine ⟨top, ht, bottom, hb, ?_⟩
    have hfirst := (hown ht).2.1
    have hlast := (hown hb).2.2
    simp only [Node.center, Rect.center, Rect.bottom, Node.height_box] at hfirst hlast
    linarith
  case inside =>
    intro hin
    obtain ⟨⟨hfirst, -⟩, -⟩ := hin left hl
    obtain ⟨⟨-, hlast⟩, -⟩ := hin right hr
    obtain ⟨-, hupper, -⟩ := hin top ht
    obtain ⟨-, -, hlower⟩ := hin bottom hb
    simp only [Rect.right, Rect.bottom, Node.width_box, Node.height_box] at hlast hlower
    constructor <;> linarith

omit [IsStrictOrderedRing K] in
theorem exists_extent_select {group : List Nat} (h : group ∈ groupsOf s d) :
    ∃ r, Node.extent (select d d.connected group).nodes = some r := by
  have hr := inRange_of_mem_groupsOf h
  rw [extent_select d.connected ((groupsOf_partitions s d).nodup h) hr]
  exact Option.ne_none_iff_exists'.1 (mt (groupExtent_eq_none hr).1 (groupsOf_ne_nil group h))

omit [IsStrictOrderedRing K] in
theorem groups_grid (hk : d.kind = .flow ∨ d.kind = .generic) (hs : s.strategy = .grid)
    (area : Rect K) : groups s d area = cells s area d.nodes := by
  rw [groups, hs]
  rcases hk with hk | hk <;> rw [hk]

theorem exists_cell_of_mem_cells {area : Rect K} (he : Node.extent d.nodes = some area)
    (hd : d.Sized) (hw : 1 ≤ s.maxWidth) (hh : 1 ≤ s.maxHeight) {group : List Nat}
    (h : group ∈ cells s area d.nodes) :
    ∃ cell : Rect K, cell.width = s.maxWidth ∧ cell.height = s.maxHeight ∧
      (select d d.connected group).nodes = d.nodes.filter fun n => cell.Owns n.center := by
  obtain ⟨c, -, rfl⟩ := List.mem_map.1 h
  refine ⟨c.rect area s.maxWidth s.maxHeight, rfl, rfl, nodes_select_eq_filter _ ?_⟩
  intro i n hn
  have hi := (List.getElem?_eq_some_iff.1 hn).1
  have hm := List.mem_of_getElem? hn
  have howns : area.Owns n.center := by
    refine Rect.owns_center (Diagram.holds_box he hm) ?_ ?_
    · rw [n.width_box]
      exact (hd n hm).1
    · rw [n.height_box]
      exact (hd n hm).2
  have hcell := Cell.holding_eq_iff (zero_lt_one.trans_le hw) (zero_lt_one.trans_le hh) howns c
  rw [List.mem_filter, List.mem_range, List.getElem?_map, hn]
  simp only [greatest_eq_max, one_eq, max_eq_left hw, max_eq_left hh]
  simp [hi, hcell]

/-- A diagram that fits on a page is not cut into cells. -/
theorem nodes_eq_or_fillCell (hk : d.kind = .flow ∨ d.kind = .generic) (hd : d.Sized)
    (hs : s.strategy = .grid) (hw : 1 ≤ s.maxWidth) (hh : 1 ≤ s.maxHeight) {group : List Nat}
    (h : group ∈ groupsOf s d) :
    ((select d d.connected group).nodes = d.nodes ∧
        ∀ r, Node.extent d.nodes = some r → Within s r) ∨
      ∃ cell : Rect K, cell.width = s.maxWidth ∧ cell.height = s.maxHeight ∧
        (select d d.connected group).nodes = d.nodes.filter fun n => cell.Owns n.center := by
  rw [groupsOf] at h
  cases he : Node.extent d.nodes with
  | none => simp [he] at h
  | some area =>
      rw [he] at h
      dsimp only at h
      split at h
      next hf =>
        refine .inl ⟨?_, fun r hr => Option.some.inj hr ▸ fits_iff.1 hf⟩
        rw [List.mem_singleton.1 h]
        refine (nodes_select_eq_filter (q := fun _ => true) _ fun i n hn => ?_).trans
          (List.filter_true d.nodes)
        simpa using (List.getElem?_eq_some_iff.1 hn).1
      next =>
        rw [groups_grid hk hs] at h
        exact .inr (exists_cell_of_mem_cells he hd hw hh h)

end

end Page

open Page

/-- A page of a grid shows a diagram that fits on it, or the nodes that have their centres in one
cell of the size of a page. -/
theorem Diagram.grid_pages_cells [IsStrictOrderedRing K] (s : PageSettings K) (d : Diagram K)
    (hk : d.kind = .flow ∨ d.kind = .generic) (hd : d.Sized) (hs : s.strategy = .grid)
    (hw : 1 ≤ s.maxWidth) (hh : 1 ≤ s.maxHeight) :
    ∀ p ∈ d.pages s, ∃ r : Rect K, r.IsHull (p.nodes.map Node.box) ∧
      p.viewBox = r.inflate s.padding ∧
      (p.nodes = d.nodes ∧ Within s r ∨
        ∃ cell : Rect K, cell.width = s.maxWidth ∧ cell.height = s.maxHeight ∧
          FillCell d.nodes p.nodes r cell) := by
  have hsequence : d.kind ≠ .sequence := by
    rcases hk with hk | hk <;> simp [hk]
  intro p hp
  obtain ⟨j, hj⟩ := List.mem_iff_getElem?.1 hp
  rw [getElem?_pages hsequence] at hj
  obtain ⟨group, hg, rfl⟩ := Option.map_eq_some_iff.1 hj
  have hm : group ∈ groupsOf s d := List.mem_of_getElem? hg
  obtain ⟨r, hr⟩ := exists_extent_select hm
  have hull := Rect.isHull_of_enclosing? hr
  rw [nodes_ofSelection_select]
  refine ⟨r, hull, ?_, ?_⟩
  · change ((Node.extent (select d d.connected group).nodes).getD .zero).inflate s.padding = _
    rw [hr, Option.getD_some]
  · refine (nodes_eq_or_fillCell hk hd hs hw hh hm).imp ?_ ?_
    · rintro ⟨hall, hwithin⟩
      exact ⟨hall, hwithin r (hall ▸ hr)⟩
    · rintro ⟨cell, hcw, hch, hshown⟩
      exact ⟨cell, hcw, hch, .of_isHull hull hshown⟩

/-- Two nodes side by side, to both sides of the end of the first cell, with their centres in it. -/
def Diagram.nodePair : Diagram ℚ where
  kind := .flow
  nodes :=
    [⟨"node-1", .process, 50, 40, 120, 60, "left", none⟩,
      ⟨"node-2", .process, 230, 40, 120, 60, "right", none⟩]
  edges := []
  title := none
  skipped := []
  unresolved := []

def PageSettings.narrow : PageSettings ℚ :=
  { PageSettings.standard with maxWidth := 250, strategy := .grid }

theorem Diagram.nodePair_pages_cells :
    (Diagram.nodePair.kind = .flow ∨ Diagram.nodePair.kind = .generic) ∧ Diagram.nodePair.Sized ∧
      PageSettings.narrow.strategy = .grid ∧ 1 ≤ PageSettings.narrow.maxWidth ∧
      1 ≤ PageSettings.narrow.maxHeight ∧
      ∀ p ∈ Diagram.nodePair.pages .narrow, ∃ r : Rect ℚ, r.IsHull (p.nodes.map Node.box) ∧
        p.viewBox = r.inflate PageSettings.narrow.padding ∧
        (p.nodes = Diagram.nodePair.nodes ∧ Within .narrow r ∨
          ∃ cell : Rect ℚ, cell.width = PageSettings.narrow.maxWidth ∧
            cell.height = PageSettings.narrow.maxHeight ∧
            FillCell Diagram.nodePair.nodes p.nodes r cell) := by
  have hk : Diagram.nodePair.kind = .flow ∨ Diagram.nodePair.kind = .generic := by decide
  have hd : Diagram.nodePair.Sized := by decide +kernel
  have hw : 1 ≤ PageSettings.narrow.maxWidth := by decide +kernel
  have hh : 1 ≤ PageSettings.narrow.maxHeight := by decide +kernel
  exact ⟨hk, hd, rfl, hw, hh,
    Diagram.grid_pages_cells .narrow Diagram.nodePair hk hd rfl hw hh⟩

/-- Not every page of a grid shows a single node or keeps to the limits: this one is 300 wide. -/
theorem Diagram.nodePair_page_not_within :
    Diagram.nodePair.kind = .flow ∧ Diagram.nodePair.Sized ∧ PageSettings.narrow.strategy = .grid ∧
      1 ≤ PageSettings.narrow.maxWidth ∧ 1 ≤ PageSettings.narrow.maxHeight ∧
      0 ≤ PageSettings.narrow.overlapMargin ∧
      ¬ ∀ p ∈ Diagram.nodePair.pages .narrow, p.nodes.length = 1 ∨
        ∀ r : Rect ℚ, r.IsHull (p.nodes.map Node.box) → Within .narrow r := by
  refine ⟨rfl, by decide +kernel, rfl, by decide +kernel, by decide +kernel, by decide +kernel, ?_⟩
  intro h
  have hpages : (Diagram.nodePair.pages .narrow).map Page.nodes = [Diagram.nodePair.nodes] := by
    decide +kernel
  have hboth : Node.extent Diagram.nodePair.nodes = some ⟨50, 40, 300, 60⟩ := by decide +kernel
  have hwide : ¬ Within PageSettings.narrow ⟨50, 40, 300, 60⟩ := by decide +kernel
  obtain ⟨p, hp, hn⟩ := List.mem_map.1 (hpages ▸ List.mem_singleton_self Diagram.nodePair.nodes)
  rcases h p hp with hone | hall
  · rw [hn] at hone
    revert hone
    decide
  · rw [hn] at hall
    exact hwide (hall _ (Rect.isHull_of_enclosing? hboth))

end Drafting
