import Mathlib.Analysis.Real.Sqrt
import Drafting.Proofs.Partition
import Drafting.Proofs.Route.Ends
import Drafting.Proofs.Route.Offset
import Drafting.Proofs.Route.Side

namespace Drafting

def Edge.isBetween (a b : String) (e : Edge) : Bool :=
  (e.source == a && e.target == b) || (e.source == b && e.target == a)

theorem Edge.isBetween_iff {a b : String} {e : Edge} : e.isBetween a b ↔
    (e.source = a ∧ e.target = b) ∨ (e.source = b ∧ e.target = a) := by
  simp [isBetween]

theorem Edge.target_eq_of_isBetween {a b : String} {e f : Edge} (he : e.isBetween a b)
    (hf : f.isBetween a b) (hs : f.source = e.source) : f.target = e.target := by
  obtain ⟨rfl, rfl⟩ | ⟨rfl, rfl⟩ := isBetween_iff.1 he
  · obtain ⟨-, ht⟩ | ⟨hb, ht⟩ := isBetween_iff.1 hf
    · exact ht
    · rw [ht, ← hs, hb]
  · obtain ⟨ha, ht⟩ | ⟨-, ht⟩ := isBetween_iff.1 hf
    · rw [ht, ← hs, ha]
    · exact ht

theorem Edge.ne_of_isBetween {a b : String} {e : Edge} (h : e.isBetween a b) (hab : a ≠ b) :
    e.source ≠ e.target := by
  obtain ⟨rfl, rfl⟩ | ⟨rfl, rfl⟩ := isBetween_iff.1 h
  · exact hab
  · exact hab.symm

namespace Route

variable {a b : String} {e : Edge}

theorem samePair_eq (h : e.isBetween a b) : samePair e = Edge.isBetween a b := by
  funext f
  apply Bool.eq_iff_iff.2
  rw [Edge.isBetween_iff, samePair, Bool.or_eq_true, Bool.and_eq_true, Bool.and_eq_true]
  simp only [beq_iff_eq]
  obtain ⟨rfl, rfl⟩ | ⟨rfl, rfl⟩ := Edge.isBetween_iff.1 h <;> tauto

/-- An offset to the left of an edge, measured to the left of the direction in which the names of
its ends ascend. -/
def alongNames (e : Edge) (offset : ℝ) : ℝ := if againstOrder e then -offset else offset

/-- The lane of an edge that is the `k`-th of `n` between two nodes, counted from zero. -/
structure IsLane (spacing : ℝ) (k n : Nat) (e : Edge) (lane : Lane) : Prop where
  total : lane.total = n
  index : if againstOrder e then lane.index + (k + 1) = n else lane.index = k
  offset : alongNames e (Path.laneOffset lane.index lane.total spacing) =
    spacing * (k - (n - 1) / 2)

theorem laneOffset_of_lt {k n : Nat} (h : k < n) (spacing : ℝ) :
    Path.laneOffset k n spacing = spacing * (k - (n - 1) / 2) := by
  rw [Path.laneOffset_eq]
  split_ifs with hn
  · obtain rfl : n = 1 := by omega
    obtain rfl : k = 0 := by omega
    simp
  · rfl

theorem isLane {k n : Nat} (h : k < n) (spacing : ℝ) (e : Edge) :
    IsLane spacing k n e ⟨if againstOrder e then n - (k + 1) else k, n⟩ where
  total := rfl
  index := by
    dsimp only
    split_ifs <;> omega
  offset := by
    have hmirror := Path.laneOffset_mirror (show (⟨k, n⟩ : Lane).index < n from h) spacing
    rw [alongNames]
    split
    · rw [← laneOffset_of_lt h, ← neg_eq_iff_eq_neg.2 hmirror]
      rfl
    · exact laneOffset_of_lt h spacing

theorem isLane_laneAt {edges : List Edge} {i : Nat} (h : edges[i]? = some e) (spacing : ℝ) :
    IsLane spacing (standing (samePair e) edges i) (edges.countP (samePair e)) e
      (laneAt edges i e) :=
  isLane (seen_lt_total h) spacing e

noncomputable def sideOffset (spacing : ℝ) (k n : Nat) (e : Edge) : ℝ :=
  alongNames e (spacing * (k - (n - 1) / 2))

theorem IsLane.laneOffset_eq {spacing : ℝ} {k n : Nat} {lane : Lane}
    (h : IsLane spacing k n e lane) :
    Path.laneOffset lane.index lane.total spacing = sideOffset spacing k n e := by
  rw [sideOffset, ← h.offset, alongNames, alongNames]
  split <;> simp

theorem sideOffset_congr {f : Edge} (hs : f.source = e.source) (ht : f.target = e.target)
    (spacing : ℝ) (k n : Nat) : sideOffset spacing k n f = sideOffset spacing k n e := by
  rw [sideOffset, sideOffset, alongNames, alongNames, againstOrder, againstOrder, hs, ht]

theorem sideOffset_inj {spacing : ℝ} {k k' n : Nat} (h : k ≠ k') :
    sideOffset spacing k n e = sideOffset spacing k' n e ↔ spacing = 0 := by
  have hk : (k : ℝ) - (n - 1) / 2 ≠ k' - (n - 1) / 2 := by simpa using h
  rw [sideOffset, sideOffset, alongNames, alongNames]
  split
  · rw [neg_inj, mul_eq_mul_left_iff, or_iff_right hk]
  · rw [mul_eq_mul_left_iff, or_iff_right hk]

end Route

open Route

namespace Diagram

section

variable {α : Type} {d : Diagram α} {a b : String}

def bundle (d : Diagram α) (a b : String) : List Nat := positionsOf (Edge.isBetween a b) d.edges

theorem joins_of_isBetween (ha : a ∈ d.ids) (hb : b ∈ d.ids) {e : Edge} (h : e.isBetween a b) :
    d.joins e := by
  obtain ⟨rfl, rfl⟩ | ⟨rfl, rfl⟩ := Edge.isBetween_iff.1 h
  · exact joins_iff.2 ⟨ha, hb⟩
  · exact joins_iff.2 ⟨hb, ha⟩

/-- All edges between two nodes are links. -/
theorem bundle_eq (ha : a ∈ d.ids) (hb : b ∈ d.ids) :
    d.bundle a b = (d.links.filter fun l => l.edge.isBetween a b).map Link.position := by
  have hlinks := congrArg (List.filter fun p : Edge × Nat => p.1.isBetween a b)
    d.map_edge_position_links
  rw [List.filter_map, List.filter_filter] at hlinks
  have hjoined : (d.edges.zipIdx.filter fun p => p.1.isBetween a b && d.joins p.1) =
      d.edges.zipIdx.filter fun p => p.1.isBetween a b := by
    refine List.filter_congr fun p _ => ?_
    cases h : p.1.isBetween a b with
    | false => rfl
    | true => exact joins_of_isBetween ha hb h
  rw [bundle, positionsOf, ← hjoined, ← hlinks, List.map_map]
  rfl

theorem length_bundle (ha : a ∈ d.ids) (hb : b ∈ d.ids) :
    (d.bundle a b).length = d.connected.countP (Edge.isBetween a b) := by
  rw [bundle_eq ha hb, List.length_map, ← List.countP_eq_length_filter, connected, List.countP_map]
  rfl

theorem exists_link_of_bundle (ha : a ∈ d.ids) (hb : b ∈ d.ids) {k p : Nat}
    (h : (d.bundle a b)[k]? = some p) :
    ∃ (i : Nat) (l : Link α), d.links[i]? = some l ∧ l.position = p ∧ l.edge.isBetween a b ∧
      standing (Edge.isBetween a b) d.connected i = k := by
  rw [bundle_eq ha hb, List.getElem?_map] at h
  obtain ⟨l, hl, rfl⟩ := Option.map_eq_some_iff.1 h
  obtain ⟨i, hi, hbetween, hk⟩ := exists_of_getElem?_filter hl
  refine ⟨i, l, hi, rfl, hbetween, ?_⟩
  rw [connected, standing_map]
  exact hk

theorem ends_congr {l m : Link α} (hl : l ∈ d.links) (hm : m ∈ d.links)
    (hs : m.edge.source = l.edge.source) (ht : m.edge.target = l.edge.target) :
    m.source = l.source ∧ m.target = l.target := by
  obtain ⟨-, hls, hlt⟩ := mem_links.1 hl
  obtain ⟨-, hms, hmt⟩ := mem_links.1 hm
  rw [hs, hls] at hms
  rw [ht, hlt] at hmt
  exact ⟨(Option.some_inj.1 hms).symm, (Option.some_inj.1 hmt).symm⟩

end

section

variable {α : Type} [EuclideanScalar α] {d : Diagram α} {s : LayoutSettings α} {style : PathStyle}
variable {i : Nat} {l : Link α} {r : Route α}

def RoutedAt (s : LayoutSettings α) (style : PathStyle) (d : Diagram α) (p : Nat) (r : Route α) :
    Prop :=
  ∃ (i : Nat) (l : Link α), d.links[i]? = some l ∧ l.position = p ∧ (d.routes s style)[i]? = some r

theorem routedAt_iff (hl : d.links[i]? = some l) :
    d.RoutedAt s style l.position r ↔ (d.routes s style)[i]? = some r := by
  refine ⟨?_, fun hr => ⟨i, l, hl, rfl, hr⟩⟩
  rintro ⟨j, m, hm, hp, hr⟩
  have hi : (d.links.map Link.position)[i]? = some l.position := by rw [List.getElem?_map, hl]; rfl
  have hj : (d.links.map Link.position)[j]? = some l.position := by
    rw [List.getElem?_map, hm, ← hp]
    rfl
  have hij := (List.getElem?_inj (List.getElem?_eq_some_iff.1 hi).1 d.nodup_position_links).1
    (hi.trans hj.symm)
  rw [hij, hr]

theorem routedAt_iff_between (hk : d.kind ≠ .sequence) (hl : d.links[i]? = some l)
    (hne : l.edge.source ≠ l.edge.target) : d.RoutedAt s style l.position r ↔
      r = between s.routing style (laneAt d.connected i l.edge) l := by
  rw [routedAt_iff hl, getElem?_routes, hl, Option.map_some, ofLink, if_neg hk, if_neg hne,
    Option.some_inj, eq_comm]

end

variable {s : LayoutSettings ℝ} {style : PathStyle} {d : Diagram ℝ} {a b : String}

/-- The edges between two nodes take the lanes in turn. -/
theorem exists_lane (hk : d.kind ≠ .sequence) (ha : a ∈ d.ids) (hb : b ∈ d.ids) (hab : a ≠ b)
    {k p : Nat} (hp : (d.bundle a b)[k]? = some p) :
    ∃ i l, d.links[i]? = some l ∧ l.position = p ∧ l.edge.isBetween a b ∧
      let lane := laneAt d.connected i l.edge
      IsLane s.routing.parallelSpacing k (d.bundle a b).length l.edge lane ∧
        ∀ r, d.RoutedAt s style p r ↔ r = between s.routing style lane l := by
  obtain ⟨i, l, hl, rfl, hbetween, rfl⟩ := exists_link_of_bundle ha hb hp
  have hlane := isLane_laneAt (getElem?_connected hl) s.routing.parallelSpacing
  rw [samePair_eq hbetween, ← length_bundle ha hb] at hlane
  exact ⟨i, l, hl, rfl, hbetween, hlane,
    fun _ => routedAt_iff_between hk hl (Edge.ne_of_isBetween hbetween hab)⟩

variable (s style) in
/-- Two edges between two nodes that run the same way have the same ends and differ in how far they
give way. -/
theorem exists_lanes (hk : d.kind ≠ .sequence) (ha : a ∈ d.ids) (hb : b ∈ d.ids) (hab : a ≠ b)
    {k k' p p' : Nat} (hp : (d.bundle a b)[k]? = some p) (hp' : (d.bundle a b)[k']? = some p')
    {e e' : Edge} (he : d.edges[p]? = some e) (he' : d.edges[p']? = some e')
    (hs : e'.source = e.source) : ∃ l ∈ d.links, ∃ (l' : Link ℝ) (lane lane' : Lane),
      l.edge = e ∧ l'.edge = e' ∧ l'.source = l.source ∧ l'.target = l.target ∧
        Path.laneOffset lane.index lane.total s.routing.parallelSpacing =
          sideOffset s.routing.parallelSpacing k (d.bundle a b).length e ∧
        Path.laneOffset lane'.index lane'.total s.routing.parallelSpacing =
          sideOffset s.routing.parallelSpacing k' (d.bundle a b).length e ∧
        (∀ r, d.RoutedAt s style p r ↔ r = between s.routing style lane l) ∧
        ∀ r, d.RoutedAt s style p' r ↔ r = between s.routing style lane' l' := by
  obtain ⟨i, l, hl, rfl, hbetween, hlane, hroute⟩ := exists_lane hk ha hb hab hp
  obtain ⟨i', l', hl', rfl, hbetween', hlane', hroute'⟩ := exists_lane hk ha hb hab hp'
  have hl := List.mem_of_getElem? hl
  have hl' := List.mem_of_getElem? hl'
  obtain rfl : l.edge = e := Option.some_inj.1 ((mem_links.1 hl).1.symm.trans he)
  obtain rfl : l'.edge = e' := Option.some_inj.1 ((mem_links.1 hl').1.symm.trans he')
  have ht := Edge.target_eq_of_isBetween hbetween hbetween' hs
  obtain ⟨hsource, htarget⟩ := ends_congr hl hl' hs ht
  have hoffset' := hlane'.laneOffset_eq
  rw [sideOffset_congr hs ht] at hoffset'
  exact ⟨l, hl, l', _, _, rfl, rfl, hsource, htarget, hlane.laneOffset_eq, hoffset', hroute,
    hroute'⟩

end Diagram

namespace Route

/-- Bent paths that give way differently differ. -/
theorem points_between_ne (s : RoutingSettings ℝ) {style : PathStyle}
    (hstyle : style = .stepped ∨ ∃ bend, style = .elbow bend) {l m : Link ℝ} {lane lane' : Lane}
    (hsource : m.source = l.source) (htarget : m.target = l.target)
    (hlane : Path.laneOffset lane.index lane.total s.parallelSpacing ≠
      Path.laneOffset lane'.index lane'.total s.parallelSpacing) {p q : Point ℝ}
    (hleads : Path.Leads p q (between s style lane l).points)
    (hlength : Path.tolerance ≤ Path.length p q) :
    (between s style lane l).points ≠ (between s style lane' m).points := by
  have hcurved : style ≠ .curved := by
    rintro rfl
    obtain h | ⟨_, h⟩ := hstyle <;> contradiction
  obtain ⟨rfl, rfl⟩ := hleads.unique (leads_between s (absurd · hcurved) lane l)
  intro he
  rcases hstyle with rfl | ⟨bend, rfl⟩
  · simp only [between, hsource, htarget, Path.parallel] at he
    exact hlane (Path.injective_offsetInside_stepped hlength he)
  · simp only [between, hsource, htarget] at he
    exact hlane (Path.injective_offsetInside_elbow hlength bend he)

end Route

/-- In a diagram that is no conversation, the edges between two nodes take the lanes from one side
to the other in the order in which they stand in the diagram, as far apart as the settings say.
Loops and edges that lack an end take none, for they are between no two nodes. Bent paths that run
the same way differ, unless their ends are too close to have a direction. -/
theorem Diagram.bundle_lanes_distinct (s : LayoutSettings ℝ) (style : PathStyle) (d : Diagram ℝ)
    (hk : d.kind ≠ .sequence) {a b : String} (ha : a ∈ d.ids) (hb : b ∈ d.ids) (hab : a ≠ b) :
    (∀ k p : Nat, (d.bundle a b)[k]? = some p →
      ∃ i l, d.links[i]? = some l ∧ l.position = p ∧ l.edge.isBetween a b ∧
        let lane := laneAt d.connected i l.edge
        IsLane s.routing.parallelSpacing k (d.bundle a b).length l.edge lane ∧
          ∀ r, d.RoutedAt s style p r ↔ r = between s.routing style lane l) ∧
    (style = .stepped ∨ (∃ bend, style = .elbow bend) → s.routing.parallelSpacing ≠ 0 →
      ∀ p ∈ d.bundle a b, ∀ p' ∈ d.bundle a b, p ≠ p' →
        ∀ e e' : Edge, d.edges[p]? = some e → d.edges[p']? = some e' → e'.source = e.source →
        ∀ r r' : Route ℝ, d.RoutedAt s style p r → d.RoutedAt s style p' r' →
        ∀ x y, Path.Leads x y r.points → 1 / 2 ≤ Path.length x y → r.points ≠ r'.points) := by
  refine ⟨fun k p hp => exists_lane hk ha hb hab hp, ?_⟩
  intro hstyle hspacing p hp p' hp' hne e e' he he' hs r r' hr hr' x y hleads hlength
  obtain ⟨k, hp⟩ := List.mem_iff_getElem?.1 hp
  obtain ⟨k', hp'⟩ := List.mem_iff_getElem?.1 hp'
  have hkk' : k ≠ k' := by
    rintro rfl
    exact hne (Option.some_inj.1 (hp.symm.trans hp'))
  obtain ⟨l, -, l', lane, lane', -, -, hsource, htarget, hlane, hlane', hroute, hroute'⟩ :=
    exists_lanes s style hk ha hb hab hp hp' he he' hs
  obtain rfl := (hroute r).1 hr
  obtain rfl := (hroute' r').1 hr'
  refine points_between_ne s.routing hstyle hsource htarget ?_ hleads ?_
  · rw [hlane, hlane']
    exact mt (sideOffset_inj hkk').1 hspacing
  · rwa [Path.tolerance_eq]

namespace Diagram

noncomputable def upper : Node ℝ := ⟨"node-1", .generic, 0, 0, 100, 50, "A", none⟩

noncomputable def lower : Node ℝ := ⟨"node-2", .generic, 0, 200, 100, 50, "B", none⟩

/-- Three edges between a node and another below it, the first of them running up; a loop and an
edge that leads nowhere stand among them. -/
noncomputable def threeParallel : Diagram ℝ where
  kind := .generic
  nodes := [upper, lower]
  edges :=
    [⟨"edge-1", "node-2", "node-1", none, none, none⟩,
      ⟨"edge-2", "node-1", "node-1", none, none, none⟩,
      ⟨"edge-3", "node-1", "nobody", none, none, none⟩,
      ⟨"edge-4", "node-1", "node-2", none, none, none⟩,
      ⟨"edge-5", "node-1", "node-2", none, none, none⟩]
  title := none
  skipped := []
  unresolved := []

theorem ends_of_upper_lower :
    Side.departurePoint upper lower = ⟨50, 50⟩ ∧ Side.arrivalPoint upper lower = ⟨50, 200⟩ := by
  have hx : lower.center.x = upper.center.x := rfl
  have hy : upper.center.y < lower.center.y := by
    change (0 : ℝ) + 50 / (2 : Nat) < 200 + 50 / (2 : Nat)
    norm_num
  rw [Side.departurePoint, Side.arrivalPoint, Side.departure_of_below hx hy.le,
    Side.arrival_of_below hx hy]
  constructor
  · change (⟨0 + 100 / (2 : Nat), 0 + 50⟩ : Point ℝ) = ⟨50, 50⟩
    norm_num
  · change (⟨0 + 100 / (2 : Nat), 200⟩ : Point ℝ) = ⟨50, 200⟩
    norm_num

theorem ends_of_threeParallel {l : Link ℝ} (hl : l ∈ threeParallel.links)
    (hs : l.edge.source = "node-1") (ht : l.edge.target = "node-2") :
    l.source.node = upper ∧ l.target.node = lower := by
  obtain ⟨-, hsource, htarget⟩ := mem_links.1 hl
  rw [hs] at hsource
  rw [ht] at htarget
  have hupper : threeParallel.locate? "node-1" = some ⟨0, upper⟩ := rfl
  have hlower : threeParallel.locate? "node-2" = some ⟨1, lower⟩ := rfl
  rw [hupper, Option.some_inj] at hsource
  rw [hlower, Option.some_inj] at htarget
  exact ⟨hsource ▸ rfl, htarget ▸ rfl⟩

theorem spacing_standard_ne_zero :
    (LayoutSettings.standard : LayoutSettings ℝ).routing.parallelSpacing ≠ 0 :=
  Nat.cast_ne_zero.2 (by decide)

theorem threeParallel_lanes_distinct :
    threeParallel.kind ≠ .sequence ∧ "node-1" ∈ threeParallel.ids ∧ "node-2" ∈ threeParallel.ids ∧
      threeParallel.bundle "node-1" "node-2" = [0, 3, 4] ∧
      ∃ r r' : Route ℝ, threeParallel.RoutedAt .standard .stepped 3 r ∧
        threeParallel.RoutedAt .standard .stepped 4 r' ∧ r.points ≠ r'.points := by
  have hk : threeParallel.kind ≠ .sequence := by decide
  have hupper : "node-1" ∈ threeParallel.ids := by decide
  have hlower : "node-2" ∈ threeParallel.ids := by decide
  have hbundle : threeParallel.bundle "node-1" "node-2" = [0, 3, 4] := by decide
  refine ⟨hk, hupper, hlower, hbundle, ?_⟩
  obtain ⟨hlanes, hdiffer⟩ :=
    bundle_lanes_distinct .standard .stepped threeParallel hk hupper hlower (by decide)
  rw [hbundle] at hlanes hdiffer
  obtain ⟨i, l, hl, hposition, -, -, hroute⟩ := hlanes 1 3 rfl
  obtain ⟨i', l', -, -, -, -, hroute'⟩ := hlanes 2 4 rfl
  have hl := List.mem_of_getElem? hl
  have he : threeParallel.edges[3]? = some l.edge := hposition ▸ (mem_links.1 hl).1
  have hedge : ⟨"edge-4", "node-1", "node-2", none, none, none⟩ = l.edge := Option.some_inj.1 he
  obtain ⟨hsource, htarget⟩ := ends_of_threeParallel hl (by rw [← hedge]) (by rw [← hedge])
  have hleads := leads_between (LayoutSettings.standard : LayoutSettings ℝ).routing
    (fun h : PathStyle.stepped = .curved => nomatch h) (laneAt threeParallel.connected i l.edge) l
  rw [hsource, htarget, ends_of_upper_lower.1, ends_of_upper_lower.2] at hleads
  have hlength : (1 : ℝ) / 2 ≤ Path.length ⟨50, 50⟩ ⟨50, 200⟩ := by
    refine le_trans ?_ (Path.abs_sub_le_length _ _)
    norm_num
  refine ⟨_, _, (hroute _).2 rfl, (hroute' _).2 rfl, ?_⟩
  exact hdiffer (.inl rfl) spacing_standard_ne_zero 3 (by decide) 4 (by decide) (by decide) _ _ he
    rfl (by rw [← hedge]) _ _ ((hroute _).2 rfl) ((hroute' _).2 rfl) _ _ hleads hlength

end Diagram

end Drafting
