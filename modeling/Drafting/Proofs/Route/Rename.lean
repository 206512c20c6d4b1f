import Drafting.Number.Binary32
import Drafting.Proofs.Rename
import Drafting.Route
import Mathlib.Data.String.Basic
import Mathlib.Logic.Equiv.Basic

namespace Drafting

namespace Route

def Lane.mirror (lane : Lane) : Lane := ⟨lane.total - (lane.index + 1), lane.total⟩

variable {f : String → String} {names : Set String}

def Among (names : Set String) (e : Edge) : Prop := e.source ∈ names ∧ e.target ∈ names

theorem samePair_self (e : Edge) : samePair e e := by
  simp [samePair]

theorem samePair_rename (hf : Set.InjOn f names) {e e' : Edge} (h : Among names e)
    (h' : Among names e') : samePair (e.rename f) (e'.rename f) = samePair e e' := by
  have hss := hf.eq_iff h.1 h'.1
  have htt := hf.eq_iff h.2 h'.2
  have hst := hf.eq_iff h.1 h'.2
  have hts := hf.eq_iff h.2 h'.1
  apply Bool.eq_iff_iff.2
  simp only [samePair, Edge.rename, Bool.or_eq_true, Bool.and_eq_true, beq_iff_eq]
  rw [hss, htt, hst, hts]

theorem countP_samePair_rename (hf : Set.InjOn f names) {e : Edge} (h : Among names e)
    {edges : List Edge} (hs : ∀ e' ∈ edges, Among names e') :
    (edges.map (Edge.rename f)).countP (samePair (e.rename f)) = edges.countP (samePair e) := by
  rw [List.countP_map]
  refine List.countP_congr fun e' he' => ?_
  rw [Function.comp_apply, samePair_rename hf h (hs e' he')]

def KeepsOrder (f : String → String) (e : Edge) : Prop :=
  againstOrder (e.rename f) = againstOrder e

instance (f : String → String) (e : Edge) : Decidable (KeepsOrder f e) :=
  inferInstanceAs (Decidable (_ = _))

def laneAt (edges : List Edge) (i : Nat) (e : Edge) : Lane := lane edges (edges.take i) e

theorem seen_lt_total {edges : List Edge} {i : Nat} {e : Edge} (h : edges[i]? = some e) :
    (edges.take i).countP (samePair e) < edges.countP (samePair e) := by
  obtain ⟨hi, he⟩ := List.getElem?_eq_some_iff.1 h
  have hsplit : edges = edges.take i ++ e :: edges.drop (i + 1) := by
    rw [← he, List.getElem_cons_drop, List.take_append_drop]
  conv => rhs; rw [hsplit]
  rw [List.countP_append, List.countP_cons_of_pos (samePair_self e)]
  omega

theorem index_laneAt_lt {edges : List Edge} {i : Nat} {e : Edge} (h : edges[i]? = some e) :
    (laneAt edges i e).index < (laneAt edges i e).total := by
  have hlt := seen_lt_total h
  rw [laneAt, lane]
  dsimp only
  split <;> omega

theorem laneAt_rename (hf : Set.InjOn f names) {edges : List Edge}
    (hs : ∀ e ∈ edges, Among names e) {i : Nat} {e : Edge} (h : edges[i]? = some e) :
    laneAt (edges.map (Edge.rename f)) i (e.rename f) =
      if KeepsOrder f e then laneAt edges i e else (laneAt edges i e).mirror := by
  have he := hs e (List.mem_of_getElem? h)
  have hall := countP_samePair_rename hf he hs
  have hbefore := countP_samePair_rename hf he fun e' (he' : e' ∈ edges.take i) =>
    hs e' (List.mem_of_mem_take he')
  have hlt := seen_lt_total h
  rw [laneAt, laneAt, lane, lane, ← List.map_take, hall, hbefore]
  generalize edges.countP (samePair e) = total at hlt
  generalize (edges.take i).countP (samePair e) = seen at hlt
  by_cases hk : KeepsOrder f e
  · rw [if_pos hk, show againstOrder (e.rename f) = againstOrder e from hk]
  · have hflip : againstOrder (e.rename f) = !againstOrder e := Bool.eq_not_of_ne hk
    rw [if_neg hk, hflip]
    cases againstOrder e
    · rfl
    · have hback : total - (total - (seen + 1) + 1) = seen := by omega
      simp [Lane.mirror, hback]

theorem not_keepsOrder_swap {e : Edge} (h : e.source ≠ e.target) :
    ¬ KeepsOrder (Equiv.swap e.source e.target) e := by
  have hlt : e.source < e.target ∨ e.target < e.source := lt_or_gt_of_ne h
  rw [KeepsOrder, againstOrder, againstOrder, Edge.rename, Equiv.swap_apply_left,
    Equiv.swap_apply_right, decide_eq_decide]
  rcases hlt with hlt | hlt
  · exact fun hk => lt_asymm hlt (hk.1 hlt)
  · exact fun hk => lt_asymm hlt (hk.2 hlt)

section

variable {α : Type} [EuclideanScalar α]

def shape (r : Route α) : List (Point α) × Option (Curve α) := (r.points, r.curve)

theorem ofLink_rename (s : LayoutSettings α) (kind : DiagramKind) (style : PathStyle) (lane : Lane)
    {l : Link α} (h : f l.edge.source = f l.edge.target ↔ l.edge.source = l.edge.target) :
    ofLink s kind style lane (l.rename f) = ofLink s kind style lane l := by
  have hm : message s (l.rename f) = message s l := by
    rw [message, message]
    simp only [Link.rename, Edge.rename, h]
    rfl
  rw [ofLink, ofLink, hm]
  simp only [Link.rename, Edge.rename, h]
  rfl

def SameInMirror (s : LayoutSettings α) (kind : DiagramKind) (style : PathStyle) (lane : Lane)
    (l : Link α) : Prop :=
  (ofLink s kind style lane.mirror l).shape = (ofLink s kind style lane l).shape

theorem edge_ofLink (s : LayoutSettings α) (kind : DiagramKind) (style : PathStyle) (lane : Lane)
    (l : Link α) : (ofLink s kind style lane l).edge = l.edge.id := by
  rw [ofLink]
  split
  · rfl
  · split
    · rfl
    · cases style <;> rfl

theorem sameInMirror_of_loop (s : LayoutSettings α) (kind : DiagramKind) (style : PathStyle)
    (lane : Lane) {l : Link α} (h : l.edge.source = l.edge.target) :
    SameInMirror s kind style lane l := by
  rw [SameInMirror, ofLink, ofLink, if_pos h, if_pos h]

end

end Route

open Route

variable {α : Type} [EuclideanScalar α] {d : Diagram α} {f : String → String}

namespace Diagram

theorem getElem?_routes (s : LayoutSettings α) (style : PathStyle) (d : Diagram α) (i : Nat) :
    (d.routes s style)[i]? = d.links[i]?.map fun l =>
      ofLink s d.kind style (laneAt d.connected i l.edge) l := by
  rw [routes, List.getElem?_map, List.getElem?_zipIdx, Option.map_map, Nat.zero_add]
  rfl

omit [EuclideanScalar α] in
theorem among_mentions {e : Edge} (h : e ∈ d.edges) : Among d.mentions e :=
  ⟨source_mem_mentions h, target_mem_mentions h⟩

theorem getElem?_routes_rename (s : LayoutSettings α) (style : PathStyle)
    (hf : Set.InjOn f d.mentions) (i : Nat) :
    ((d.rename f).routes s style)[i]? = d.links[i]?.map fun l =>
      ofLink s d.kind style (if KeepsOrder f l.edge then laneAt d.connected i l.edge
        else (laneAt d.connected i l.edge).mirror) l := by
  rw [getElem?_routes, links_rename hf, connected_rename hf, List.getElem?_map, Option.map_map]
  refine Option.map_congr fun l hl => ?_
  have he := among_mentions (edge_mem_of_mem_links (List.mem_of_getElem? hl))
  have hc : d.connected[i]? = some l.edge := getElem?_connected hl
  have hs : ∀ e ∈ d.connected, Among d.mentions e := by
    intro e hm
    rw [connected_eq_filter] at hm
    exact among_mentions (List.mem_of_mem_filter hm)
  rw [Function.comp_apply, ofLink_rename s _ style _ (hf.eq_iff he.1 he.2)]
  exact congrArg (ofLink s d.kind style · l) (laneAt_rename hf hs hc)

theorem shape_routes_rename_iff (s : LayoutSettings α) (style : PathStyle)
    (hf : Set.InjOn f d.mentions) {i : Nat} {l : Link α} (hl : d.links[i]? = some l) :
    ((d.rename f).routes s style)[i]?.map shape = (d.routes s style)[i]?.map shape ↔
      KeepsOrder f l.edge ∨ SameInMirror s d.kind style (laneAt d.connected i l.edge) l := by
  rw [getElem?_routes_rename s style hf, getElem?_routes, hl]
  simp only [Option.map_some, Option.some_inj]
  by_cases hk : KeepsOrder f l.edge
  · simp [hk]
  · simp [hk, SameInMirror]

theorem same_shapes_iff (s : LayoutSettings α) (style : PathStyle) (d : Diagram α) :
    (∀ f, Set.InjOn f d.mentions →
      ((d.rename f).routes s style).map shape = (d.routes s style).map shape) ↔
        ∀ i l, d.links[i]? = some l →
          SameInMirror s d.kind style (laneAt d.connected i l.edge) l := by
  constructor
  · intro h i l hl
    by_cases he : l.edge.source = l.edge.target
    · exact sameInMirror_of_loop s _ style _ he
    · have hf : Set.InjOn (Equiv.swap l.edge.source l.edge.target) d.mentions :=
        (Equiv.injective _).injOn
      have hi := congrArg (·[i]?) (h _ hf)
      simp only [List.getElem?_map] at hi
      exact ((shape_routes_rename_iff s style hf hl).1 hi).resolve_left (not_keepsOrder_swap he)
  · intro h f hf
    refine List.ext_getElem? fun i => ?_
    rw [List.getElem?_map, List.getElem?_map]
    cases hl : d.links[i]? with
    | none =>
        rw [getElem?_routes_rename s style hf, getElem?_routes, hl]
        rfl
    | some l => exact (shape_routes_rename_iff s style hf hl).2 (.inr (h i l hl))

theorem map_edge_routes_rename (s : LayoutSettings α) (style : PathStyle)
    (hf : Set.InjOn f d.mentions) :
    ((d.rename f).routes s style).map Route.edge = (d.routes s style).map Route.edge := by
  refine List.ext_getElem? fun i => ?_
  rw [List.getElem?_map, List.getElem?_map, getElem?_routes_rename s style hf, getElem?_routes,
    Option.map_map, Option.map_map]
  refine Option.map_congr fun l _ => ?_
  rw [Function.comp_apply, Function.comp_apply, edge_ofLink, edge_ofLink]

end Diagram

/-- Other names for the nodes of a diagram leave it the same routes in the same order, but an edge
whose ends change their order runs in the mirror image of its lane. So what one sees is the same
under all names exactly if each edge looks the same in the mirror image of its lane. -/
theorem Diagram.routes_rename_mirrored (s : LayoutSettings α) (style : PathStyle)
    (d : Diagram α) :
    (∀ f, Set.InjOn f d.mentions →
      ((d.rename f).routes s style).map Route.edge = (d.routes s style).map Route.edge ∧
      ∀ i l, d.links[i]? = some l →
        let lane := laneAt d.connected i l.edge
        ((d.rename f).routes s style)[i]? =
            some (ofLink s d.kind style (if KeepsOrder f l.edge then lane else lane.mirror) l) ∧
          (((d.rename f).routes s style)[i]?.map shape = (d.routes s style)[i]?.map shape ↔
            KeepsOrder f l.edge ∨ SameInMirror s d.kind style lane l)) ∧
      ((∀ f, Set.InjOn f d.mentions →
        ((d.rename f).routes s style).map shape = (d.routes s style).map shape) ↔
          ∀ i l, d.links[i]? = some l →
            SameInMirror s d.kind style (laneAt d.connected i l.edge) l) := by
  refine ⟨fun f hf => ⟨map_edge_routes_rename s style hf, fun i l hl => ?_⟩,
    same_shapes_iff s style d⟩
  constructor
  · rw [getElem?_routes_rename s style hf, hl, Option.map_some]
  · exact shape_routes_rename_iff s style hf hl

def Diagram.twoAssociations : Diagram Float32 where
  kind := .classes
  nodes :=
    [⟨"node-9", .classBox, 0, 0, 200, 100, "A", none⟩,
      ⟨"node-10", .classBox, 0, 220, 200, 100, "B", none⟩]
  edges :=
    [⟨"edge-1", "node-9", "node-10", none, some .association, none⟩,
      ⟨"edge-2", "node-9", "node-10", none, some .association, none⟩]
  title := none
  skipped := []
  unresolved := []

theorem Diagram.twoAssociations_routes_rename :
    Set.InjOn (Equiv.swap "node-9" "node-10") Diagram.twoAssociations.mentions ∧
      ((Diagram.twoAssociations.rename (Equiv.swap "node-9" "node-10")).routes .standard
        (.elbow .vertical)).map Route.edge = ["edge-1", "edge-2"] ∧
      ∃ i l, Diagram.twoAssociations.links[i]? = some l ∧
        ¬ SameInMirror .standard .classes (.elbow .vertical)
          (laneAt Diagram.twoAssociations.connected i l.edge) l := by
  have hf : Set.InjOn (Equiv.swap "node-9" "node-10") Diagram.twoAssociations.mentions :=
    (Equiv.injective _).injOn
  obtain ⟨hroutes, hsame⟩ :=
    Diagram.routes_rename_mirrored .standard (.elbow .vertical) Diagram.twoAssociations
  refine ⟨hf, (hroutes _ hf).1.trans (by decide +kernel), ?_⟩
  by_contra hno
  push Not at hno
  have hlook := hsame.2 hno _ hf
  revert hlook
  decide +kernel

/-- Distinct names for the nodes are not enough for one look. -/
theorem Diagram.shape_rename_not_invariant :
    ¬ ∀ (s : LayoutSettings Float32) (style : PathStyle) (d : Diagram Float32)
      (f : String → String), d.ids.Nodup → Function.Injective f →
        ((d.rename f).routes s style).map shape = (d.routes s style).map shape := by
  intro h
  have hsame := h .standard (.elbow .vertical) .twoAssociations (Equiv.swap "node-9" "node-10")
    (by decide +kernel) (Equiv.injective _)
  revert hsame
  decide +kernel

end Drafting
