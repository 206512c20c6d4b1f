import Drafting.Proofs.Route.Lane

namespace Drafting

open Route

namespace Path

/-- Caps that differ are told apart by the control point once one of them takes effect. -/
theorem control_curve_ne_iff {p q : Point ℝ} (hl : curveTolerance ≤ length p q) (cap o o' : ℝ) :
    (curve p q (cap + o)).control ≠ (curve p q (cap + o')).control ↔
      o ≠ o' ∧ cap + min o o' < 3 / 10 * length p q := by
  rw [ne_eq, control_curve_eq_iff hl, min_eq_min_iff, not_or, min_add_add_left, not_le,
    add_right_inj]

end Path

noncomputable def Route.along (id : String) (c : Curve ℝ) : Route ℝ := ⟨id, c.sample 12, some c⟩

/-- Two curved edges that run from one node to another have control points of their own exactly if
they are apart by the settings and the distance of their ends, three tenths of it, exceeds the cap
of one of them. -/
theorem Diagram.curve_control_ne_iff (s : LayoutSettings ℝ) (d : Diagram ℝ)
    (hk : d.kind ≠ .sequence) {a b : String} (ha : a ∈ d.ids) (hb : b ∈ d.ids) (hab : a ≠ b)
    {k k' p p' : Nat} (hne : k ≠ k') (hp : (d.bundle a b)[k]? = some p)
    (hp' : (d.bundle a b)[k']? = some p') {e e' : Edge} (he : d.edges[p]? = some e)
    (he' : d.edges[p']? = some e') (hs : e'.source = e.source) :
    ∃ c c' : Curve ℝ, (∀ r, d.RoutedAt s .curved p r ↔ r = .along e.id c) ∧
      (∀ r, d.RoutedAt s .curved p' r ↔ r = .along e'.id c') ∧
      c'.start = c.start ∧ c'.finish = c.finish ∧
      (1 / 2 ≤ Path.length c.start c.finish →
        let n := (d.bundle a b).length
        let spacing := s.routing.parallelSpacing
        (c.control ≠ c'.control ↔ spacing ≠ 0 ∧
          s.routing.curveCap + min (sideOffset spacing k n e) (sideOffset spacing k' n e) <
            3 / 10 * Path.length c.start c.finish)) := by
  obtain ⟨l, -, l', lane, lane', rfl, rfl, hsource, htarget, hlane, hlane', hroute, hroute'⟩ :=
    exists_lanes s .curved hk ha hb hab hp hp' he he' hs
  simp only [between, hsource, htarget, hlane, hlane'] at hroute hroute'
  refine ⟨_, _, hroute, hroute', rfl, rfl, fun hlength => ?_⟩
  have hlong : Path.curveTolerance ≤ Path.length
      (Side.departurePoint l.source.node l.target.node)
      (Side.arrivalPoint l.source.node l.target.node) := by
    rw [Path.curveTolerance_eq]
    exact le_trans (by norm_num) hlength
  exact (Path.control_curve_ne_iff hlong _ _ _).trans (and_congr_left' (sideOffset_inj hne).not)

namespace Diagram

theorem sideOffset_of_not_lt {e : Edge} (h : ¬ e.target < e.source) (spacing : ℝ) :
    sideOffset spacing 1 3 e = 0 ∧ sideOffset spacing 2 3 e = spacing := by
  have hagainst : againstOrder e = false := decide_eq_false h
  rw [sideOffset, sideOffset, alongNames, alongNames, hagainst]
  constructor <;> norm_num

/-- Of the two edges that run down the first is in the middle. -/
theorem routedAt_threeParallel (s : LayoutSettings ℝ) :
    threeParallel.RoutedAt s .curved 3
        (.along "edge-4" (Path.curve ⟨50, 50⟩ ⟨50, 200⟩ (s.routing.curveCap + 0))) ∧
      threeParallel.RoutedAt s .curved 4 (.along "edge-5"
        (Path.curve ⟨50, 50⟩ ⟨50, 200⟩ (s.routing.curveCap + s.routing.parallelSpacing))) := by
  have hp : (threeParallel.bundle "node-1" "node-2")[1]? = some 3 := by decide
  have hp' : (threeParallel.bundle "node-1" "node-2")[2]? = some 4 := by decide
  have hn : (threeParallel.bundle "node-1" "node-2").length = 3 := by decide
  obtain ⟨l, hl, l', lane, lane', he, he', hsource, htarget, hlane, hlane', hroute, hroute'⟩ :=
    exists_lanes s .curved (by decide) (by decide) (by decide) (by decide) hp hp' rfl rfl rfl
  have hdown : ¬ l.edge.target < l.edge.source := by
    rw [he]
    decide
  obtain ⟨hmiddle, hbeside⟩ := sideOffset_of_not_lt hdown s.routing.parallelSpacing
  obtain ⟨hupper, hlower⟩ := ends_of_threeParallel hl (by rw [he]) (by rw [he])
  rw [hn, ← he, hmiddle] at hlane
  rw [hn, ← he, hbeside] at hlane'
  rw [hroute, hroute', between, between, hsource, htarget, hupper, hlower, ends_of_upper_lower.1,
    ends_of_upper_lower.2, hlane, hlane', he, he']
  exact ⟨rfl, rfl⟩

theorem length_upper_lower : Path.length (⟨50, 50⟩ : Point ℝ) ⟨50, 200⟩ = 150 := by
  rw [Path.length_eq, sub_self, mul_zero, zero_add, Real.sqrt_mul_self] <;> norm_num

/-- Under a cap of 40 units, which is less than three tenths of 150, the two edges part. -/
theorem threeParallel_control_ne :
    let s : LayoutSettings ℝ := { LayoutSettings.standard with routing := ⟨16, 40⟩ }
    threeParallel.kind ≠ .sequence ∧ "node-1" ∈ threeParallel.ids ∧ "node-2" ∈ threeParallel.ids ∧
      (threeParallel.bundle "node-1" "node-2")[1]? = some 3 ∧
      (threeParallel.bundle "node-1" "node-2")[2]? = some 4 ∧
      ∃ c c' : Curve ℝ, threeParallel.RoutedAt s .curved 3 (.along "edge-4" c) ∧
        threeParallel.RoutedAt s .curved 4 (.along "edge-5" c') ∧ c.control ≠ c'.control := by
  intro s
  have hk : threeParallel.kind ≠ .sequence := by decide
  have hupper : "node-1" ∈ threeParallel.ids := by decide
  have hlower : "node-2" ∈ threeParallel.ids := by decide
  have hp : (threeParallel.bundle "node-1" "node-2")[1]? = some 3 := by decide
  have hp' : (threeParallel.bundle "node-1" "node-2")[2]? = some 4 := by decide
  have hn : (threeParallel.bundle "node-1" "node-2").length = 3 := by decide
  refine ⟨hk, hupper, hlower, hp, hp', ?_⟩
  obtain ⟨c, c', hroute, hroute', -, -, hpart⟩ := curve_control_ne_iff s threeParallel hk hupper
    hlower (by decide) (by decide) hp hp' rfl rfl rfl
  refine ⟨c, c', (hroute _).2 rfl, (hroute' _).2 rfl, ?_⟩
  obtain ⟨hmiddle, hbeside⟩ := sideOffset_of_not_lt (e := threeParallel.edges[3]) (by decide) 16
  have hc : some (Path.curve ⟨50, 50⟩ ⟨50, 200⟩ (40 + 0)) = some c :=
    congrArg Route.curve ((hroute _).1 (routedAt_threeParallel s).1)
  have hlength : Path.length c.start c.finish = 150 := by
    rw [← Option.some_inj.1 hc]
    exact length_upper_lower
  rw [hlength] at hpart
  refine (hpart (by norm_num)).2 ⟨spacing_standard_ne_zero, ?_⟩
  rw [hn]
  change
    40 + min (sideOffset 16 1 3 threeParallel.edges[3]) (sideOffset 16 2 3 threeParallel.edges[3]) <
      3 / 10 * 150
  rw [hmiddle, hbeside]
  norm_num

/-- Parallel edges are not always told apart: the two that run down have one control
point in common. -/
theorem curve_control_not_distinct :
    ¬ ∀ (s : LayoutSettings ℝ) (d : Diagram ℝ), d.kind ≠ .sequence → d.ids.Nodup →
      s.routing.parallelSpacing ≠ 0 → ∀ p p' : Nat, p ≠ p' → ∀ e e' : Edge,
        d.edges[p]? = some e → d.edges[p']? = some e' → e'.source = e.source →
        e'.target = e.target → e.source ≠ e.target → ∀ c c' : Curve ℝ,
          d.RoutedAt s .curved p (.along e.id c) → d.RoutedAt s .curved p' (.along e'.id c') →
          1 / 2 ≤ Path.length c.start c.finish → c.control ≠ c'.control := by
  intro h
  obtain ⟨hroute, hroute'⟩ := routedAt_threeParallel .standard
  have hlength : (1 : ℝ) / 2 ≤ Path.length ⟨50, 50⟩ ⟨50, 200⟩ := by
    rw [length_upper_lower]
    norm_num
  have hne := h .standard threeParallel (by decide) (by decide) spacing_standard_ne_zero 3 4
    (by decide)
    _ _ rfl rfl rfl rfl (by decide) _ _ hroute hroute' hlength
  have hlong : Path.curveTolerance ≤ Path.length (⟨50, 50⟩ : Point ℝ) ⟨50, 200⟩ := by
    rw [Path.curveTolerance_eq, length_upper_lower]
    norm_num
  have hlow := ((Path.control_curve_ne_iff hlong _ _ _).1 hne).2
  rw [length_upper_lower] at hlow
  change (60 : ℝ) + min 0 16 < 3 / 10 * 150 at hlow
  norm_num at hlow

end Diagram

end Drafting
