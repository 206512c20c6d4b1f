import Drafting.Page.Units
import Drafting.Proofs.Graph.Distance

namespace Drafting

namespace Page

open Drafting.Graph

def reachedLevels (g : Graph) (isRoot : Nat → Bool) : List (List Nat) :=
  let roots := g.nodes.filter isRoot
  (g.waves (without g.nodes roots) roots).map fun wave => g.nodes.filter wave.contains

def unreached (g : Graph) (isRoot : Nat → Bool) : List Nat :=
  let roots := g.nodes.filter isRoot
  without g.nodes (g.waves (without g.nodes roots) roots).flatten

theorem levels_eq_append (g : Graph) (isRoot : Nat → Bool) :
    levels g isRoot = reachedLevels g isRoot ++
      if (unreached g isRoot).isEmpty then [] else [unreached g isRoot] := rfl

variable {g : Graph} {isRoot : Nat → Bool} {i k : Nat}

section

variable (hg : ∀ {i j}, j ∈ g.successors i → i < g.size)
include hg

theorem holdsAt_waves_roots :
    HoldsAt (g.waves (without g.nodes (g.nodes.filter isRoot)) (g.nodes.filter isRoot)) k i ↔
      i ∈ g.nodes ∧ g.IsDistance (g.nodes.filter isRoot) i k := by
  have hroots : (g.nodes.filter isRoot).filter g.nodes.contains = g.nodes.filter isRoot := by
    apply List.filter_eq_self.2
    intro i hi
    simpa using List.mem_of_mem_filter hi
  have hclosed : g.Closed (· ∈ g.nodes) := fun i j hj _ => List.mem_range.2 (hg hj)
  rw [← holdsAt_waves hclosed, hroots]

theorem holdsAt_reachedLevels : HoldsAt (reachedLevels g isRoot) k i ↔
    i ∈ g.nodes ∧ g.IsDistance (g.nodes.filter isRoot) i k := by
  rw [← holdsAt_waves_roots hg]
  constructor
  · rintro ⟨level, hl, hi⟩
    rw [reachedLevels, List.getElem?_map] at hl
    obtain ⟨wave, hw, rfl⟩ := Option.map_eq_some_iff.1 hl
    exact ⟨wave, hw, by simpa using (List.mem_filter.1 hi).2⟩
  · intro h
    have hi := (holdsAt_waves_roots hg).1 h
    obtain ⟨wave, hw, hm⟩ := h
    refine ⟨g.nodes.filter wave.contains, ?_, List.mem_filter.2 ⟨hi.1, by simpa using hm⟩⟩
    rw [reachedLevels, List.getElem?_map, hw]
    rfl

theorem mem_unreached : i ∈ unreached g isRoot ↔
    i ∈ g.nodes ∧ ¬ g.Reaches (g.nodes.filter isRoot) i := by
  have hreach (hi : i ∈ g.nodes) : (∃ k, i ∈ g.nodes ∧ g.IsDistance (g.nodes.filter isRoot) i k) ↔
      g.Reaches (g.nodes.filter isRoot) i :=
    ⟨fun ⟨_, _, hk⟩ => hk.reaches, fun h => h.exists_isDistance.imp fun _ hk => ⟨hi, hk⟩⟩
  rw [unreached, mem_without, mem_flatten_iff_holdsAt]
  apply and_congr_right
  intro hi
  rw [not_congr ((exists_congr fun k => holdsAt_waves_roots hg).trans (hreach hi))]

theorem ne_nil_of_mem_reachedLevels {level : List Nat} (h : level ∈ reachedLevels g isRoot) :
    level ≠ [] := by
  obtain ⟨wave, hw, rfl⟩ := List.mem_map.1 h
  obtain ⟨i, hi⟩ := List.exists_mem_of_ne_nil _ (waves_ne_nil hw)
  obtain ⟨k, hk⟩ := List.mem_iff_getElem?.1 hw
  have hn : i ∈ g.nodes := ((holdsAt_waves_roots hg).1 ⟨wave, hk, hi⟩).1
  exact List.ne_nil_of_mem (List.mem_filter.2 ⟨hn, by simpa using hi⟩)

end

theorem pairwise_of_mem_levels {level : List Nat} (h : level ∈ levels g isRoot) :
    level.Pairwise (· < ·) := by
  have hsub : level.Sublist g.nodes := by
    rw [levels_eq_append] at h
    rcases List.mem_append.1 h with h | h
    · obtain ⟨wave, -, rfl⟩ := List.mem_map.1 h
      exact List.filter_sublist
    · split at h
      · cases h
      · rw [List.mem_singleton.1 h]
        exact List.filter_sublist
  exact List.pairwise_lt_range.sublist hsub

def isLevelRoot {α : Type} (d : Diagram α) (i : Nat) : Bool :=
  d.graph.isInitial i || d.nodes[i]?.any (·.kind = .root)

def levelRoots {α : Type} (d : Diagram α) : List Nat := d.graph.nodes.filter (isLevelRoot d)

theorem mem_levelRoots {α : Type} {d : Diagram α} : i ∈ levelRoots d ↔
    ∃ n, d.nodes[i]? = some n ∧ (n.kind = .root ∨ ∀ j, i ∉ d.graph.successors j) := by
  rw [levelRoots, List.mem_filter, isLevelRoot, Bool.or_eq_true, isInitial_iff, or_comm]
  constructor
  · rintro ⟨hi, h⟩
    obtain ⟨n, hn⟩ : ∃ n, d.nodes[i]? = some n :=
      ⟨_, List.getElem?_eq_getElem (List.mem_range.1 hi)⟩
    exact ⟨n, hn, by simpa [hn] using h⟩
  · rintro ⟨n, hn, h⟩
    have hi : i < d.nodes.length := (List.getElem?_eq_some_iff.1 hn).1
    exact ⟨List.mem_range.2 hi, by simpa [hn] using h⟩

end Page

open Page in
/-- The levels of a diagram are distances along the edges between two different nodes, counted from
the nodes of the root kind and those to which no edge leads. There is a level for each distance up
to the greatest, and behind them one more for the nodes that no root reaches, if there are any. In
each level the nodes keep their order. -/
theorem Diagram.levelsOf_isDistance {α : Type} (d : Diagram α) :
    (∀ i j, j ∈ d.graph.successors i ↔ i ≠ j ∧ ∃ e ∈ d.edges,
        (d.locate? e.source).map Endpoint.index = some i ∧
          (d.locate? e.target).map Endpoint.index = some j) ∧
      (∀ i, i ∈ levelRoots d ↔
        ∃ n, d.nodes[i]? = some n ∧ (n.kind = .root ∨ ∀ j, i ∉ d.graph.successors j)) ∧
      ∃ near far, levelsOf d = near ++ (if far = [] then [] else [far]) ∧
        (∀ k i, HoldsAt near k i ↔ d.graph.IsDistance (levelRoots d) i k) ∧
        (∀ i, i ∈ far ↔ i < d.nodes.length ∧ ¬ d.graph.Reaches (levelRoots d) i) ∧
        ∀ level ∈ levelsOf d, level ≠ [] ∧ level.Pairwise (· < ·) := by
  have hg : ∀ {i j}, j ∈ d.graph.successors i → i < d.graph.size := fun h =>
    (lt_of_mem_successors_graph h).1
  have hsplit : levelsOf d = reachedLevels d.graph (isLevelRoot d) ++
      if unreached d.graph (isLevelRoot d) = [] then []
      else [unreached d.graph (isLevelRoot d)] := by
    rw [show levelsOf d = _ from levels_eq_append d.graph (isLevelRoot d)]
    simp only [List.isEmpty_iff]
  refine ⟨fun _ _ => mem_successors_graph, fun _ => mem_levelRoots, _, _, hsplit, ?_, ?_, ?_⟩
  · intro k i
    rw [holdsAt_reachedLevels hg]
    apply and_iff_right_of_imp
    intro h
    exact List.mem_range.2 (h.reaches.closed (fun _ _ _ hj => (lt_of_mem_successors_graph hj).2)
      fun s hs => List.mem_range.1 (List.mem_of_mem_filter hs))
  · intro i
    rw [mem_unreached hg, Graph.nodes, List.mem_range]
    rfl
  · intro level hl
    refine ⟨?_, pairwise_of_mem_levels hl⟩
    rw [hsplit] at hl
    rcases List.mem_append.1 hl with h | h
    · exact ne_nil_of_mem_reachedLevels hg h
    · split at h
      · cases h
      next hne => exact List.mem_singleton.1 h ▸ hne

end Drafting
