import Mathlib.Computability.StateTransition
import Drafting.Proofs.Layout.Plan
import Drafting.Proofs.Layout.Settled

namespace Drafting

namespace Layout.Mindmap

open Scalar StateTransition

variable {α : Type} [Scalar α] {p : Plan} {f : Forest} {k : Nat} {nodes : List (Node α)}

structure Widening (α : Type) where
  stack : List Nat
  widths : List α

def raise (width : α) : Nat → List α → List α
  | 0, ws => greatest (ws.headD 0) width :: ws.tail
  | k + 1, ws => ws.headD 0 :: raise width k ws.tail

def Widening.step (nodes : List (Node α)) (p : Plan) (s : Widening α) : Option (Widening α) :=
  match s.stack with
  | [] => none
  | i :: stack =>
      some ⟨(p.children i).reverse ++ stack, raise (widthOf nodes i) (p.depth i) s.widths⟩

theorem raise_append (width : α) (inner ws : List α) :
    raise width inner.length (inner ++ ws) =
      inner ++ greatest (ws.headD 0) width :: ws.tail := by
  induction inner with
  | nil => rfl
  | cons w inner ih => exact congrArg (w :: ·) ih

theorem Widening.reaches (nodes : List (Node α)) (h : p.Shows k f) {inner : List α}
    (hk : inner.length = k) (ws : List α) (stack : List Nat) :
    Reaches (step nodes p) ⟨f.roots.reverse ++ stack, inner ++ ws⟩
      ⟨stack, inner ++ widen nodes f ws⟩ := by
  induction f generalizing k inner ws stack with
  | nil => exact .refl
  | cons i children siblings ihc ihs =>
      obtain ⟨hr, hi, -, hc, hs⟩ := h
      let row := widen nodes siblings ws
      let peak := greatest (row.headD 0) (widthOf nodes i)
      have hsiblings : Reaches (step nodes p)
          ⟨(Forest.cons i children siblings).roots.reverse ++ stack, inner ++ ws⟩
          ⟨i :: stack, inner ++ row⟩ := by
        rw [Forest.roots, List.reverse_cons, List.append_assoc]
        exact ihs hs hk ws (i :: stack)
      have hnode : step nodes p ⟨i :: stack, inner ++ row⟩ =
          some ⟨children.roots.reverse ++ stack, (inner ++ [peak]) ++ row.tail⟩ := by
        dsimp only [step]
        rw [hr, hi, ← hk, raise_append, List.append_assoc]
        rfl
      have hchildren := ihc hc (show (inner ++ [peak]).length = k + 1 by simp [hk]) row.tail stack
      rw [List.append_assoc _ _ (widen nodes children row.tail)] at hchildren
      exact (hsiblings.tail hnode).trans hchildren

structure Banding (α : Type) where
  bands : List (List Nat × α)
  placed : Placement α

def Banding.fill (nodes : List (Node α)) (p : Plan) (unit direction : α) (columns : List α) :
    α → List Nat → Banding α → Banding α
  | _, [], s => s
  | cursor, i :: members, s =>
      let height := p.span unit i
      let x := direction * columns.getD (p.depth i) 0
      fill nodes p unit direction columns (cursor + height) members
        { bands := if p.children i = [] then s.bands else (p.children i, cursor) :: s.bands
          placed := s.placed ++
            (pick nodes [i]).map fun q => (q.1, q.2.placeCenter x (cursor + height / 2)) }

def Banding.step (nodes : List (Node α)) (p : Plan) (unit direction : α) (columns : List α)
    (s : Banding α) : Option (Banding α) :=
  match s.bands with
  | [] => none
  | (members, top) :: bands =>
      some (fill nodes p unit direction columns top members { s with bands })

def bandsBelow (unit : α) : α → Forest → List (List Nat × α)
  | _, .nil => []
  | top, .cons _ children siblings =>
      bandsBelow unit (top + span unit children) siblings ++
        if children.roots = [] then [] else [(children.roots, top)]

section

variable (nodes) (unit direction : α) (columns : List α)

theorem Banding.fill_eq (h : p.Shows k f) (top : α) (s : Banding α) :
    fill nodes p unit direction columns top f.roots s =
      ⟨bandsBelow unit top f ++ s.bands,
        s.placed ++ placeBand nodes unit (direction * columns.getD k 0) top f⟩ := by
  induction f generalizing top s with
  | nil => simp [Forest.roots, fill, bandsBelow, placeBand]
  | cons i children siblings _ ihs =>
      obtain ⟨hr, hi, hw, -, hs⟩ := h
      have hspan : p.span unit i = span unit children := by rw [Plan.span, hw, span]
      rw [Forest.roots, fill, ihs hs, hspan, hi, hr, bandsBelow, placeBand, ← List.append_assoc]
      split <;> simp

omit [Scalar α] in
theorem headD_drop (k : Nat) (a : α) : (columns.drop k).headD a = columns.getD k a := by
  rw [List.headD_eq_head?_getD, List.head?_drop, List.getD_eq_getElem?_getD]

/-- Once the families of a row are placed, the row is placed with all that is below it. -/
theorem Banding.reaches_of_families (h : p.Shows k f) {top : α} {bands : List (List Nat × α)}
    (hf : ∀ placed, Reaches (step nodes p unit direction columns)
      ⟨bandsBelow unit top f ++ bands, placed⟩
      ⟨bands, placed ++ placeFamilies nodes unit direction (columns.drop (k + 1)) top f⟩)
    (placed : Placement α) :
    Reaches (step nodes p unit direction columns) ⟨(f.roots, top) :: bands, placed⟩
      ⟨bands, placed ++ placeForest nodes unit direction (columns.drop k) top f⟩ := by
  have hrow : step nodes p unit direction columns ⟨(f.roots, top) :: bands, placed⟩ =
      some ⟨bandsBelow unit top f ++ bands,
        placed ++ placeBand nodes unit (direction * columns.getD k 0) top f⟩ := by
    dsimp only [step]
    rw [fill_eq nodes unit direction columns h]
  have hfamilies := hf (placed ++ placeBand nodes unit (direction * columns.getD k 0) top f)
  rw [placeForest, headD_drop, List.tail_drop, ← List.append_assoc]
  exact .head hrow hfamilies

theorem Banding.reaches_families (h : p.Shows k f) (top : α) (bands : List (List Nat × α))
    (placed : Placement α) :
    Reaches (step nodes p unit direction columns) ⟨bandsBelow unit top f ++ bands, placed⟩
      ⟨bands, placed ++ placeFamilies nodes unit direction (columns.drop (k + 1)) top f⟩ := by
  induction f generalizing k top bands placed with
  | nil =>
      rw [bandsBelow, placeFamilies, List.append_nil, List.nil_append]
      exact .refl
  | cons i children siblings ihc ihs =>
      obtain ⟨-, -, -, hc, hs⟩ := h
      let family := if children.roots = [] then [] else [(children.roots, top)]
      let beside := placeFamilies nodes unit direction (columns.drop (k + 1))
        (top + span unit children) siblings
      have hsiblings := ihs hs (top + span unit children) (family ++ bands) placed
      have hfamily : Reaches (step nodes p unit direction columns)
          ⟨family ++ bands, placed ++ beside⟩
          ⟨bands, placed ++ beside ++
            placeForest nodes unit direction (columns.drop (k + 1)) top children⟩ := by
        by_cases hr : children.roots = []
        · obtain rfl := Forest.roots_eq_nil_iff.1 hr
          rw [show family = [] from if_pos hr, placeForest, placeBand, placeFamilies,
            List.append_nil, List.append_nil, List.nil_append]
          exact .refl
        · rw [show family = [(children.roots, top)] from if_neg hr, List.singleton_append]
          exact reaches_of_families nodes unit direction columns hc (ihc hc top bands) _
      rw [bandsBelow, placeFamilies, List.append_assoc]
      rw [List.append_assoc] at hfamily
      exact hsiblings.trans hfamily

theorem Banding.reaches (h : p.Shows k f) (top : α) :
    Reaches (step nodes p unit direction columns) ⟨[(f.roots, top)], []⟩
      ⟨[], placeForest nodes unit direction (columns.drop k) top f⟩ :=
  reaches_of_families nodes unit direction columns h
    (reaches_families nodes unit direction columns h top []) []

end

def sides (children : Forest) : List (α × Forest) :=
  let half := (children.roots.length + 1) / 2
  [(1, children.take half), (-1, children.drop half)]

def Plan.halves (p : Plan) (root : Nat) : List (α × List Nat) :=
  let half := ((p.children root).length + 1) / 2
  [(1, (p.children root).take half), (-1, (p.children root).drop half)]

def placeSides (s : MindmapSettings α) (nodes : List (Node α)) : Forest → Placement α
  | .nil => []
  | .cons root children _ =>
      (sides children).flatMap fun side => placeSide s nodes root side.1 side.2

theorem Plan.Shows.map_roots_sides {root : Nat} {children siblings : Forest}
    (h : p.Shows k (.cons root children siblings)) :
    (sides children).map (fun side => ((side.1, side.2.roots) : α × List Nat)) = p.halves root := by
  obtain ⟨hr, -⟩ := h
  rw [Plan.halves, hr, sides]
  simp [Forest.roots_take, Forest.roots_drop]

theorem Plan.Shows.of_mem_sides (h : p.Shows k f) {side : α × Forest}
    (hs : side ∈ sides f) : p.Shows k side.2 := by
  rcases List.mem_pair.1 hs with rfl | rfl
  · exact h.take _
  · exact h.drop _

theorem Plan.Shows.spans_eq (h : p.Shows k f) (unit : α) :
    f.roots.map (p.span unit) = spans unit f := by
  induction f with
  | nil => rfl
  | cons i children siblings _ ihs =>
      obtain ⟨-, -, hw, -, hs⟩ := h
      rw [Forest.roots, List.map_cons, ihs hs, spans, Plan.span, hw]
      rfl

/-- Where the loops begin and where they end on one side of a tree. -/
theorem Plan.Shows.mem_eval (h : p.Shows 1 f) (s : MindmapSettings α) (nodes : List (Node α))
    (root : Nat) (direction : α) :
    let ws := widths nodes f
    let top := -(total (f.roots.map (p.span s.unitHeight))) / 2
    ⟨[], widthOf nodes root :: ws⟩ ∈
        eval (Widening.step nodes p) ⟨f.roots.reverse, [widthOf nodes root]⟩ ∧
      ⟨[], placeSide s nodes root direction f⟩ ∈
        eval (Banding.step nodes p s.unitHeight direction
          (0 :: columns s (widthOf nodes root) ws)) ⟨[(f.roots, top)], []⟩ := by
  intro ws top
  have hwiden := Widening.reaches nodes h (show [widthOf nodes root].length = 1 from rfl) [] []
  rw [List.append_nil, List.append_nil] at hwiden
  have hfill := Banding.reaches nodes s.unitHeight direction
    (0 :: columns s (widthOf nodes root) ws) h top
  rw [show top = _ from congrArg (fun l => -(total l) / 2) (h.spans_eq s.unitHeight)] at hfill ⊢
  exact ⟨StateTransition.mem_eval.2 ⟨hwiden, rfl⟩, StateTransition.mem_eval.2 ⟨hfill, rfl⟩⟩

theorem roots_append_placed_perm (s : MindmapSettings α) (d : Diagram α) :
    ((plan d).roots ++ ((trees d).flatMap (placeSides s d.nodes)).map Prod.fst).Perm
      d.graph.nodes := by
  have hplaced : (((trees d).flatMap (placeSides s d.nodes)).map Prod.fst).Perm
      ((trees d).flatMap Forest.descendants) := by
    rw [List.map_flatMap]
    refine List.Perm.flatMap_left _ fun tree ht => ?_
    obtain ⟨root, children, rfl⟩ := Graph.exists_of_mem_spanFrom ht
    have hkeys := (moved_placeSides s d.nodes root ((children.roots.length + 1) / 2)
      children).map_fst_perm
    have hin : ∀ i ∈ children.nodes, i < d.nodes.length := fun i hi =>
      List.mem_range.1 (mem_nodes_of_mem_trees ht (by simp [Forest.nodes, hi]))
    rw [map_fst_pick hin] at hkeys
    rw [placeSides, sides, List.flatMap_cons, List.flatMap_singleton, Forest.descendants,
      Forest.descendants, List.append_nil]
    exact hkeys
  rw [roots_plan]
  exact (hplaced.append_left _).trans
    ((Forest.flatMap_nodes_perm _).symm.trans (nodes_trees_perm d))

end Layout.Mindmap

open Layout Mindmap StateTransition Scalar

/-- The search writes spanning trees into its tables: each node is a root or a child once, children
lie where arcs lead, every node has one root above it and is as deep as it is far from that root,
and it weighs as much as there are leaves below it, so that the bands of children fill the band of
their parent. The tables are those of the trees that are placed, and both loops that go through one
side of a tree come to an end; together they place every node that is no root once. -/
theorem Diagram.mindmap_plan_correct {α K : Type} [Scalar α] [Semiring K] (unit : K)
    (s : MindmapSettings α) (d : Diagram α) :
    let g := d.graph
    let p := plan d
    (p.roots ++ g.nodes.flatMap p.children).Perm g.nodes ∧
      (∀ i, ∀ j ∈ p.children i, j ∈ g.successors i) ∧
      (∀ i ∈ g.nodes, ∃! root, root ∈ p.roots ∧ Descends p.children root i) ∧
      (∀ root ∈ p.roots, ∀ i, Descends p.children root i → g.IsDistance [root] i (p.depth i)) ∧
      (∀ i ∈ g.nodes, {j | Descends p.children i j ∧ p.children j = []}.ncard = p.weight i) ∧
      (∀ i ∈ g.nodes, p.children i ≠ [] →
        ((p.children i).map (p.span unit)).sum = p.span unit i) ∧
      p.roots = (trees d).flatMap Forest.roots ∧
      (∀ tree ∈ trees d, p.Shows 0 tree ∧ ∃ root children, tree = .cons root children .nil ∧
        (sides children).map (fun side => ((side.1, side.2.roots) : α × List Nat)) =
          p.halves root ∧
        ∀ side ∈ (sides children : List (α × Forest)),
          let ws := widths d.nodes side.2
          let top := -(total (side.2.roots.map (p.span s.unitHeight))) / 2
          ⟨[], widthOf d.nodes root :: ws⟩ ∈
              eval (Widening.step d.nodes p) ⟨side.2.roots.reverse, [widthOf d.nodes root]⟩ ∧
            ⟨[], placeSide s d.nodes root side.1 side.2⟩ ∈
              eval (Banding.step d.nodes p s.unitHeight side.1
                (0 :: columns s (widthOf d.nodes root) ws)) ⟨[(side.2.roots, top)], []⟩) ∧
      (p.roots ++ ((trees d).flatMap (placeSides s d.nodes)).map Prod.fst).Perm g.nodes := by
  refine ⟨roots_append_children_perm d, (sound_search d).arcs, fun i => existsUnique_root,
    fun root hr i => isDistance_depth hr, fun i => ncard_leaves_plan,
    fun i => sum_span_children unit, roots_plan d, fun tree ht => ?_, roots_append_placed_perm s d⟩
  have hshows := shows_of_mem_trees ht
  obtain ⟨root, children, rfl⟩ := Graph.exists_of_mem_spanFrom ht
  refine ⟨hshows, root, children, rfl, hshows.map_roots_sides, fun side hside => ?_⟩
  have hchildren : (plan d).Shows 1 children := hshows.2.2.2.1
  exact (hchildren.of_mem_sides hside).mem_eval s d.nodes root side.1

end Drafting
