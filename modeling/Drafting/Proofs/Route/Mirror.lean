import Drafting.Proofs.Route.Offset

namespace Drafting

namespace Route

/-- Whether an edge from `p` to `q` in a lane that far off the middle is drawn off the middle. -/
def GivesWay (s : RoutingSettings ℝ) (p q : Point ℝ) (offset : ℝ) : PathStyle → Prop
  | .direct => False
  | .elbow _ | .stepped => Path.tolerance ≤ Path.length p q
  | .curved =>
      Path.curveTolerance ≤ Path.length p q ∧ s.curveCap - |offset| < 3 / 10 * Path.length p q

theorem between_mirror (s : RoutingSettings ℝ) (style : PathStyle) {lane : Lane} (l : Link ℝ)
    (h : lane.index < lane.total) :
    (between s style lane.mirror l).shape = (between s style lane l).shape ↔
      (Path.laneOffset lane.index lane.total s.parallelSpacing ≠ 0 →
        ¬ GivesWay s (Side.departurePoint l.source.node l.target.node)
          (Side.arrivalPoint l.source.node l.target.node)
          (Path.laneOffset lane.index lane.total s.parallelSpacing) style) := by
  have hm := Path.laneOffset_mirror h s.parallelSpacing
  simp only [between]
  rw [hm]
  generalize Side.departurePoint l.source.node l.target.node = p
  generalize Side.arrivalPoint l.source.node l.target.node = q
  cases style with
  | direct => simp [GivesWay]
  | elbow bend =>
      generalize Path.laneOffset lane.index lane.total s.parallelSpacing = o
      by_cases ho : o = 0
      · simp [ho]
      · simp [shape, GivesWay, ho, Path.offsetInside_neg_elbow]
  | stepped =>
      dsimp only
      rw [Path.parallel, Path.parallel, hm]
      generalize Path.laneOffset lane.index lane.total s.parallelSpacing = o
      by_cases ho : o = 0
      · simp [ho]
      · simp [shape, GivesWay, ho, Path.offsetInside_neg_stepped]
  | curved =>
      generalize Path.laneOffset lane.index lane.total s.parallelSpacing = o
      by_cases ho : o = 0
      · simp [ho]
      · have hc := Path.curve_neg p q s.curveCap ho
        simp only [shape, GivesWay, Prod.mk.injEq, Option.some_inj]
        rw [and_iff_right_of_imp (congrArg (Curve.sample · 12)), hc, ← not_le, ← imp_iff_not_or]
        simp [ho]

theorem sameInMirror_iff (s : LayoutSettings ℝ) (kind : DiagramKind) (style : PathStyle)
    {lane : Lane} (l : Link ℝ) (h : lane.index < lane.total) :
    SameInMirror s kind style lane l ↔
      (kind ≠ .sequence → l.edge.source ≠ l.edge.target →
        Path.laneOffset lane.index lane.total s.routing.parallelSpacing ≠ 0 →
        ¬ GivesWay s.routing (Side.departurePoint l.source.node l.target.node)
          (Side.arrivalPoint l.source.node l.target.node)
          (Path.laneOffset lane.index lane.total s.routing.parallelSpacing) style) := by
  rw [SameInMirror, ofLink, ofLink]
  by_cases hk : kind = .sequence
  · simp [hk]
  · by_cases he : l.edge.source = l.edge.target
    · simp [hk, he]
    · rw [if_neg hk, if_neg hk, if_neg he, if_neg he, between_mirror s.routing style l h]
      simp [hk, he]

end Route

open Route

/-- In real arithmetic one sees the same under all names exactly if no edge between two nodes is
drawn off the middle. -/
theorem Diagram.shape_rename_iff_not_givesWay (s : LayoutSettings ℝ) (style : PathStyle)
    (d : Diagram ℝ) :
    (∀ f, Set.InjOn f d.mentions →
      ((d.rename f).routes s style).map shape = (d.routes s style).map shape) ↔
        ∀ i l, d.links[i]? = some l → d.kind ≠ .sequence → l.edge.source ≠ l.edge.target →
          let lane := laneAt d.connected i l.edge
          let offset := Path.laneOffset lane.index lane.total s.routing.parallelSpacing
          offset ≠ 0 → ¬ GivesWay s.routing (Side.departurePoint l.source.node l.target.node)
            (Side.arrivalPoint l.source.node l.target.node) offset style := by
  rw [Diagram.same_shapes_iff]
  refine forall_congr' fun i => forall_congr' fun l => imp_congr_right fun hl => ?_
  exact sameInMirror_iff s d.kind style l (index_laneAt_lt (getElem?_connected hl))

end Drafting
