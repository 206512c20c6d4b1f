import Drafting.Layout.Mindmap
import Drafting.Number.Binary32
import Drafting.Proofs.Graph.Tree
import Drafting.Proofs.Source.Mirror

namespace Drafting

theorem dropWhile_eq_filter {β : Type} {p : β → Bool} {l : List β}
    (h : l.Pairwise fun a b => p b → p a) : l.dropWhile p = l.filter fun a => !p a := by
  induction l with
  | nil => rfl
  | cons a l ih =>
      obtain ⟨ha, hl⟩ := List.pairwise_cons.1 h
      cases hp : p a with
      | true => rw [List.dropWhile_cons_of_pos hp, List.filter_cons_of_neg (by simp [hp]), ih hl]
      | false =>
          have hrest : ∀ b ∈ a :: l, (!p b) = true := by
            rw [List.forall_mem_cons]
            refine ⟨by simp [hp], fun b hb => ?_⟩
            by_contra hn
            simp [ha b hb (by simpa using hn)] at hp
          rw [List.dropWhile_cons_of_neg (by simp [hp]), List.filter_eq_self.2 hrest]

section

variable {α : Type} [Scalar α] {d : Diagram α} {s : Sketch} {kind : DiagramKind}
  {skipped : List Nat} {unresolved : List String} {ids : IdSupply}

theorem filterMap_zipWith_left {β γ δ ε : Type} {f : β → γ → δ} {u : δ → Option ε} {v : β → ε}
    {as : List β} {bs : List γ} (hf : ∀ a ∈ as, ∀ b, u (f a b) = some (v a))
    (h : bs.length = as.length) : (List.zipWith f as bs).filterMap u = as.map v := by
  have hmap := congrArg (List.filterMap id) (map_zipWith_of_mem hf h)
  rw [List.filterMap_map, List.filterMap_map] at hmap
  exact hmap.trans (congrFun List.filterMap_eq_map as)

/-- The edges of a diagram join what the ties of its sketch tie. -/
theorem Sketch.Tied.joints_toDiagram (h : s.Tied) :
    (s.toDiagram kind skipped unresolved ids : Diagram α).joints =
      s.ties.map fun t => (t.source, t.target) := by
  have hids : (s.toDiagram kind skipped unresolved ids : Diagram α).ids =
      ids.take "node" s.items.length := ids_toDiagram
  have hposition {i : Nat} (hi : i < s.items.length) :
      Diagram.position? (ids.take "node" s.items.length)
        ((ids.take "node" s.items.length).getD i "") = some i := by
    obtain ⟨id, hlocate⟩ := locate?_toDiagram (α := α) hi
    have hindex := Diagram.index_locate? (s.toDiagram kind skipped unresolved ids : Diagram α)
      ((ids.take "node" s.items.length).getD i "")
    rw [hlocate, hids] at hindex
    exact hindex.symm
  rw [Diagram.joints_eq, hids]
  refine filterMap_zipWith_left (fun t ht id => ?_) (by simp)
  obtain ⟨hs, ht⟩ := h t ht
  simp only [Diagram.joint?, Tie.toEdge, hposition hs, hposition ht]
  rfl

end

namespace Source.Outline

variable {levels : List Nat} {i j : Nat}

def levelAt (levels : List Nat) (i : Nat) : Nat := levels.getD i 0

/-- The entry that an entry stands under: the nearest one further up of a lesser level. -/
def superior? (levels : List Nat) (i : Nat) : Option Nat :=
  ((List.range i).filter fun j => levelAt levels j < levelAt levels i).getLast?

theorem superior?_lt (h : superior? levels i = some j) : j < i := by
  have hj := (List.mem_filter.1 (List.mem_of_getLast? h)).1
  exact List.mem_range.1 hj

def ancestors (levels : List Nat) (i : Nat) : List Nat :=
  match _ : superior? levels i with
  | none => []
  | some j => j :: ancestors levels j
termination_by i
decreasing_by exact superior?_lt (by assumption)

def inferiors (levels : List Nat) (i : Nat) : List Nat :=
  (List.range levels.length).filter fun j => superior? levels j = some i

theorem ancestors_of_none (h : superior? levels i = none) : ancestors levels i = [] := by
  rw [ancestors]
  split
  · rfl
  next j hj => simp [h] at hj

theorem ancestors_of_some (h : superior? levels j = some i) :
    ancestors levels j = i :: ancestors levels i := by
  rw [ancestors]
  split
  next hj => simp [h] at hj
  next k hk =>
    rw [h, Option.some_inj] at hk
    rw [hk]

/-- The entries in front of a position that all between are deeper than. -/
def openAt (levels : List Nat) (i : Nat) : List Nat :=
  (List.range i).filter fun j => ∀ k < i, j < k → levelAt levels j < levelAt levels k

def enclosing (levels : List Nat) (i : Nat) : List Nat :=
  (openAt levels i).filter fun j => levelAt levels j < levelAt levels i

theorem openAt_succ (levels : List Nat) (i : Nat) :
    openAt levels (i + 1) = enclosing levels i ++ [i] := by
  have hlast : ∀ k < i + 1, i < k → levelAt levels i < levelAt levels k := by omega
  rw [enclosing, openAt, openAt, List.range_succ, List.filter_append, List.filter_filter]
  congr 1
  · refine List.filter_congr fun j hj => ?_
    rw [← Bool.decide_and, decide_eq_decide]
    constructor
    · exact fun h => ⟨h i i.lt_succ_self (List.mem_range.1 hj), fun k hk => h k (by omega)⟩
    · rintro ⟨hi, h⟩ k hk hjk
      rcases Nat.lt_succ_iff_lt_or_eq.1 hk with hk | rfl
      · exact h k hk hjk
      · exact hi
  · simpa using hlast

/-- Open entries are each deeper than the one before. -/
theorem pairwise_openAt (levels : List Nat) (i : Nat) :
    (openAt levels i).Pairwise fun j k => levelAt levels j < levelAt levels k := by
  refine (List.pairwise_lt_range.filter _).imp_of_mem fun {j k} hj hk hlt => ?_
  obtain ⟨-, hopen⟩ := List.mem_filter.1 hj
  exact of_decide_eq_true hopen k (List.mem_range.1 (List.mem_filter.1 hk).1) hlt

/-- The nearest entry of a lesser level is still open. -/
theorem superior?_eq (levels : List Nat) (i : Nat) :
    superior? levels i = (enclosing levels i).getLast? := by
  rw [superior?, enclosing, openAt, List.filter_comm]
  have hsorted : ((List.range i).filter fun j => levelAt levels j < levelAt levels i).Pairwise
      (· < ·) := List.pairwise_lt_range.filter _
  have hmem (k : Nat) : k ∈ (List.range i).filter (fun j => levelAt levels j < levelAt levels i) ↔
      k < i ∧ levelAt levels k < levelAt levels i := by simp
  generalize (List.range i).filter (fun j => levelAt levels j < levelAt levels i) = lesser
    at hsorted hmem ⊢
  rcases lesser.eq_nil_or_concat' with rfl | ⟨front, j, rfl⟩
  · rfl
  · have hopen : ∀ k < i, j < k → levelAt levels j < levelAt levels k := by
      intro k hk hjk
      by_contra hle
      have hj := (hmem j).1 (by simp)
      rcases List.mem_append.1 ((hmem k).2 ⟨hk, by omega⟩) with hf | hl
      · exact hjk.asymm ((List.pairwise_append.1 hsorted).2.2 k hf j List.mem_cons_self)
      · exact hjk.ne' (List.mem_singleton.1 hl)
    have hkeep : ([j].filter fun j => ∀ k < i, j < k → levelAt levels j < levelAt levels k) = [j] :=
      List.filter_eq_self.2 (by simpa using hopen)
    rw [List.filter_append, hkeep, List.getLast?_concat, List.getLast?_concat]

def stackOf (levels entries : List Nat) : List (Nat × Nat) :=
  entries.reverse.map fun j => (levelAt levels j, j)

theorem head?_stackOf (levels entries : List Nat) :
    (stackOf levels entries).head?.map Prod.snd = entries.getLast? := by
  simp [stackOf, Function.comp_def]

theorem dropWhile_stackOf (levels : List Nat) (i : Nat) :
    ((stackOf levels (openAt levels i)).dropWhile fun p => levelAt levels i ≤ p.1) =
      stackOf levels (enclosing levels i) := by
  rw [stackOf, List.dropWhile_map, dropWhile_eq_filter, List.filter_reverse, stackOf, enclosing]
  · simp [← decide_not]
  · rw [List.pairwise_reverse]
    refine (pairwise_openAt levels i).imp fun {j k} hjk hk => ?_
    simp only [Function.comp_apply, decide_eq_true_eq] at hk ⊢
    omega

/-- The stack holds what is open, from entry to entry. -/
theorem parents_stackOf (levels : List Nat) {entries : List Entry} {i : Nat}
    (h : levels.drop i = entries.map Entry.level) :
    parents (stackOf levels (openAt levels i)) i entries =
      (List.range' i entries.length).map (superior? levels) := by
  induction entries generalizing i with
  | nil => rfl
  | cons e entries ih =>
      have hlevel : e.level = levelAt levels i := by
        have hhead := congrArg List.head? h
        rw [List.head?_drop] at hhead
        rw [levelAt, List.getD_eq_getElem?_getD, hhead]
        rfl
      have hrest : levels.drop (i + 1) = entries.map Entry.level := by
        rw [← List.tail_drop, h]
        rfl
      have hpush : (levelAt levels i, i) :: stackOf levels (enclosing levels i) =
          stackOf levels (openAt levels (i + 1)) := by
        rw [openAt_succ, stackOf, stackOf, List.reverse_append]
        rfl
      rw [parents, hlevel, dropWhile_stackOf, hpush, ih hrest, List.length_cons, List.range'_succ,
        List.map_cons, superior?_eq, head?_stackOf]

theorem parents_eq (entries : List Entry) :
    parents [] 0 entries =
      (List.range entries.length).map (superior? (entries.map Entry.level)) := by
  rw [List.range_eq_range']
  exact parents_stackOf (entries.map Entry.level) (i := 0) rfl

section

variable {entries : List Entry}

theorem getElem?_items (entries : List Entry) (i : Nat) :
    let levels := entries.map Entry.level
    (sketch entries).items[i]? = entries[i]?.map fun e =>
      ⟨roleOf ((List.range entries.length).map (superior? levels)) i (superior? levels i), e.label,
        some (.level e.level)⟩ := by
  rw [sketch, parents_eq, List.getElem?_map, List.getElem?_zipIdx, List.zip, List.getElem?_zipWith]
  cases h : entries[i]? with
  | none => rfl
  | some e =>
      have hi := (List.getElem?_eq_some_iff.1 h).1
      simp [hi]

theorem map_label_items (entries : List Entry) :
    (sketch entries).items.map Sketch.Item.label = entries.map Entry.label := by
  refine List.ext_getElem? fun i => ?_
  rw [List.getElem?_map, List.getElem?_map, getElem?_items, Option.map_map]
  rfl

theorem kind_eq_root_iff {item : Sketch.Item} (h : (sketch entries).items[i]? = some item) :
    item.kind = .root ↔ superior? (entries.map Entry.level) i = none := by
  have hrole (ps : List (Option Nat)) (parent : Option Nat) :
      roleOf ps i parent = .root ↔ parent = none := by
    fun_cases roleOf ps i parent <;> simp_all
  rw [getElem?_items, Option.map_eq_some_iff] at h
  obtain ⟨e, -, rfl⟩ := h
  exact hrole _ _

theorem map_ties (entries : List Entry) :
    (sketch entries).ties.map (fun t => (t.source, t.target)) =
      (List.range entries.length).filterMap fun i =>
        (superior? (entries.map Entry.level) i).map (·, i) := by
  have hrange : (List.range entries.length).zipIdx =
      (List.range entries.length).map fun i => (i, i) := by
    refine List.ext_getElem (by simp) ?_
    simp
  rw [sketch, List.map_filterMap, parents_eq, List.zipIdx_map, hrange, List.filterMap_map,
    List.filterMap_map]
  simp [Function.comp_def]

end

def graph (levels : List Nat) : Graph :=
  ⟨levels.length, (List.range levels.length).filterMap fun i => (superior? levels i).map (·, i)⟩

theorem successors_graph (levels : List Nat) (i : Nat) :
    (graph levels).successors i = inferiors levels i := by
  rw [Graph.successors, graph, List.filterMap_filterMap, inferiors, ← List.filterMap_eq_filter]
  refine List.filterMap_congr fun j _ => ?_
  cases h : superior? levels j <;> simp [h, Option.guard]

theorem mem_successors_graph :
    j ∈ (graph levels).successors i ↔ j < levels.length ∧ superior? levels j = some i := by
  rw [successors_graph, inferiors, List.mem_filter, List.mem_range, decide_eq_true_eq]

theorem isForest_graph (levels : List Nat) : (graph levels).IsForest where
  inside h := (mem_successors_graph.1 h).1
  forward h := superior?_lt (mem_successors_graph.1 h).2
  single h h' := Option.some_inj.1
    ((mem_successors_graph.1 h).2.symm.trans (mem_successors_graph.1 h').2)
  nodup i := by
    rw [successors_graph]
    exact List.nodup_range.filter _

theorem isInitial_graph (hi : i < levels.length) :
    (graph levels).isInitial i ↔ superior? levels i = none := by
  rw [Graph.isInitial_iff, Option.eq_none_iff_forall_ne_some]
  exact forall_congr' fun j => by rw [mem_successors_graph, and_iff_right hi]

variable {α : Type}

/-- What is made of an outline: an edge to each entry from the one that it stands under; trees that
begin at the entries that stand under none and give each entry those that stand under it; levels
that are as deep as the entries have ancestors. -/
structure Unfolds (d : Diagram α) (levels : List Nat) : Prop where
  joints : d.joints = (List.range levels.length).filterMap fun i =>
    (superior? levels i).map (·, i)
  roots : (Layout.Mindmap.trees d).flatMap Forest.roots =
    (List.range levels.length).filter fun i => superior? levels i = none
  families : ((Layout.Mindmap.trees d).flatMap Forest.families).Perm
    ((List.range levels.length).map fun i => (i, inferiors levels i))
  depths : ((Layout.Mindmap.trees d).flatMap (Forest.depths 0)).Perm
    ((List.range levels.length).map fun i => (i, (ancestors levels i).length))
  grouped : ∀ k, (Page.levelsOf d).getD k [] =
    (List.range levels.length).filter fun i => (ancestors levels i).length = k
  inhabited : ∀ level ∈ Page.levelsOf d, level ≠ []

section

variable {d : Diagram α}

theorem graph_eq_graph (hl : d.nodes.length = levels.length)
    (hj : d.joints = (graph levels).arcs) : d.graph = graph levels := by
  rw [Diagram.graph_eq, hl, hj, List.filter_eq_self.2, graph]
  intro a ha
  obtain ⟨j, -, ha⟩ := List.mem_filterMap.1 ha
  obtain ⟨i, hi, rfl⟩ := Option.map_eq_some_iff.1 ha
  simpa using (superior?_lt hi).ne

def RootsMatch (d : Diagram α) (levels : List Nat) : Prop :=
  ∀ i n, d.nodes[i]? = some n → (n.kind = .root ↔ superior? levels i = none)

theorem RootsMatch.kind_iff (h : RootsMatch d levels) (hl : d.nodes.length = levels.length)
    {n : Node α} (hn : d.nodes[i]? = some n) : n.kind = .root ↔ (graph levels).isInitial i := by
  have hi : i < levels.length := hl ▸ (List.getElem?_eq_some_iff.1 hn).1
  rw [h i n hn, isInitial_graph hi]

theorem RootsMatch.trees_eq (h : RootsMatch d levels) (hl : d.nodes.length = levels.length)
    (hj : d.joints = (graph levels).arcs) : Layout.Mindmap.trees d = (graph levels).span := by
  have hpreferred : Layout.Mindmap.preferredRoots d (graph levels) =
      (graph levels).nodes.filter (graph levels).isInitial := by
    rw [Graph.nodes, show (graph levels).size = d.nodes.length from hl.symm, ← map_snd_zipIdx,
      List.filter_map, Layout.Mindmap.preferredRoots]
    refine congrArg _ (List.filter_congr fun p hp => ?_)
    have hp := h.kind_iff hl (List.mem_zipIdx_iff_getElem?.1 hp)
    rw [Bool.eq_iff_iff, Bool.or_eq_true, decide_eq_true_eq, hp, or_self, Function.comp_apply]
  rw [Layout.Mindmap.trees, graph_eq_graph hl hj, hpreferred]
  rfl

theorem length_ancestors_of_isInitial (hi : i < levels.length)
    (h : (graph levels).isInitial i) : (ancestors levels i).length = 0 := by
  rw [ancestors_of_none ((isInitial_graph hi).1 h), List.length_nil]

theorem length_ancestors_of_mem_successors (h : j ∈ (graph levels).successors i) :
    (ancestors levels j).length = (ancestors levels i).length + 1 := by
  rw [ancestors_of_some (mem_successors_graph.1 h).2, List.length_cons]

/-- A diagram that joins its nodes as an outline does, and whose roots are those of the outline,
unfolds it. -/
theorem RootsMatch.unfolds (h : RootsMatch d levels) (hl : d.nodes.length = levels.length)
    (hj : d.joints = (graph levels).arcs) : Unfolds d levels := by
  have hg := isForest_graph levels
  have htrees := h.trees_eq hl hj
  have h0 : ∀ i < (graph levels).size, (graph levels).isInitial i →
      (ancestors levels i).length = 0 := fun _ => length_ancestors_of_isInitial
  have hstep : ∀ i, ∀ j ∈ (graph levels).successors i,
      (ancestors levels j).length = (ancestors levels i).length + 1 :=
    fun _ _ => length_ancestors_of_mem_successors
  have hroots : ∀ i < (graph levels).size,
      ((graph levels).isInitial i || d.nodes[i]?.any (·.kind = .root)) ↔
        (graph levels).isInitial i := fun i hi => by
    obtain ⟨n, hn⟩ : ∃ n, d.nodes[i]? = some n := ⟨_, List.getElem?_eq_getElem (hl ▸ hi)⟩
    rw [Bool.or_eq_true, hn, Option.any_some, decide_eq_true_eq, h.kind_iff hl hn, or_self]
  have hlevels := Page.levels_eq hg hroots h0 hstep
  rw [← graph_eq_graph hl hj, ← Page.levelsOf.eq_def, graph_eq_graph hl hj] at hlevels
  constructor
  case joints => exact hj
  case roots =>
    rw [htrees, hg.span_follows.1]
    refine List.filter_congr fun i hi => ?_
    rw [Bool.eq_iff_iff, isInitial_graph (List.mem_range.1 hi), decide_eq_true_eq]
  case families =>
    have hfamilies := hg.families_span_perm
    simp only [successors_graph] at hfamilies
    exact htrees ▸ hfamilies
  case depths => exact htrees ▸ hg.depths_span_perm h0 hstep
  case grouped => exact hlevels.1
  case inhabited => exact hlevels.2

end

section

variable [Scalar α] {skipped : List Nat} {unresolved : List String} {ids rest : IdSupply}
  {d : Diagram α}

theorem map_label_toDiagram (entries : List Entry) :
    ((sketch entries).toDiagram .mindmap skipped unresolved ids : Diagram α).nodes.map Node.label =
      entries.map Entry.label := by
  rw [Sketch.map_nodes_toDiagram fun _ _ => rfl, map_label_items]

theorem unfolds_toDiagram (entries : List Entry) :
    Unfolds ((sketch entries).toDiagram .mindmap skipped unresolved ids : Diagram α)
      (entries.map Entry.level) := by
  refine RootsMatch.unfolds (fun i n hn => ?_) ?_ ?_
  · rw [Sketch.toDiagram, List.getElem?_zipWith_eq_some] at hn
    obtain ⟨item, id, hi, -, rfl⟩ := hn
    exact kind_eq_root_iff hi
  · have hlength := congrArg List.length (map_label_toDiagram entries :
      ((sketch entries).toDiagram .mindmap skipped unresolved ids : Diagram α).nodes.map _ = _)
    rwa [List.length_map, List.length_map, ← List.length_map Entry.level] at hlength
  · rw [(tied_sketch _).joints_toDiagram, map_ties, graph, List.length_map]

def entriesOf (text : List Char) : List Entry := (sourceLines marks text).filterMap entry?

/-- The trees and the levels of a diagram that is read from an outline are those of the outline. -/
theorem parseWith_unfolds (text : List Char) (h : parseWith .mindmap text ids = .ok (d, rest)) :
    d.nodes.map Node.label = (entriesOf text).map Entry.label ∧
      Unfolds d ((entriesOf text).map Entry.level) := by
  obtain ⟨-, -, rfl⟩ := parseWith_eq_ok h
  exact ⟨map_label_toDiagram _, unfolds_toDiagram _⟩

end

def unevenLevels : List Char := "Year\n    Spring\n  Summer\n      June\nWeather\n  Rain".toList

theorem unevenLevels_unfolds :
    (entriesOf unevenLevels).map Entry.level = [0, 2, 1, 3, 0, 1] ∧
      ∃ (d : Diagram Float32) (rest : IdSupply),
        parseWith .mindmap unevenLevels .fresh = .ok (d, rest) ∧
        d.nodes.map Node.label = ["Year", "Spring", "Summer", "June", "Weather", "Rain"] ∧
        Unfolds d [0, 2, 1, 3, 0, 1] ∧ inferiors [0, 2, 1, 3, 0, 1] 0 = [1, 2] ∧
        inferiors [0, 2, 1, 3, 0, 1] 2 = [3] := by
  refine ⟨rfl, _, _, rfl, rfl, ?_, by decide +kernel, by decide +kernel⟩
  exact (parseWith_unfolds unevenLevels rfl).2

end Source.Outline

end Drafting
