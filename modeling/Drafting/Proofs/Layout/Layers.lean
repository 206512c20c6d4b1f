import Drafting.Layout.Layers
import Drafting.Number.Binary32
import Drafting.Proofs.Graph.Distance

namespace Drafting

open Drafting.Graph

variable {α : Type} {d : Diagram α} {g : Graph}

namespace Layout.Layers

section

variable {as bs layers : List (List Nat)} {k i : Nat}

theorem holdsAt_overlay : HoldsAt (overlay as bs) k i ↔ HoldsAt as k i ∨ HoldsAt bs k i := by
  induction as generalizing bs k with
  | nil => simp [overlay]
  | cons a as ih =>
      cases bs with
      | nil => simp [overlay]
      | cons b bs => cases k <;> simp [overlay, ih]

theorem flatten_overlay_perm (as bs : List (List Nat)) :
    (overlay as bs).flatten.Perm (as.flatten ++ bs.flatten) := by
  induction as generalizing bs with
  | nil => rfl
  | cons a as ih =>
      cases bs with
      | nil => simp [overlay]
      | cons b bs =>
          simp only [overlay, List.flatten_cons, List.append_assoc]
          apply List.Perm.append_left
          exact ((ih bs).append_left b).trans (List.perm_append_comm_assoc _ _ _)

theorem ne_nil_of_mem_overlay (ha : ∀ l ∈ as, l ≠ []) (hb : ∀ l ∈ bs, l ≠ []) :
    ∀ l ∈ overlay as bs, l ≠ [] := by
  induction as generalizing bs with
  | nil => exact hb
  | cons a as ih =>
      cases bs with
      | nil => exact ha
      | cons b bs =>
          intro l hl
          rcases List.mem_cons.1 hl with rfl | hl
          · simp [ha a]
          · exact ih (fun l h => ha l (List.mem_cons_of_mem _ h))
              (fun l h => hb l (List.mem_cons_of_mem _ h)) l hl

theorem appendToLast_concat (layers : List (List Nat)) (last rest : List Nat) :
    appendToLast (layers ++ [last]) rest = layers ++ [last ++ rest] := by
  induction layers with
  | nil => rfl
  | cons layer layers ih =>
      cases layers with
      | nil => rfl
      | cons next layers => exact congrArg (layer :: ·) ih

theorem holdsAt_concat_append {last : List Nat} (rest : List Nat)
    (h : HoldsAt (layers ++ [last]) k i) : HoldsAt (layers ++ [last ++ rest]) k i := by
  induction layers generalizing k with
  | nil =>
      cases k with
      | zero => simp_all
      | succ k => simp at h
  | cons layer layers ih =>
      cases k with
      | zero => simpa using h
      | succ k =>
          rw [List.cons_append, holdsAt_cons_succ] at h ⊢
          exact ih h

end

section

variable {waiting : List Nat} {groups : List (List Nat)}

/-- The first group that reaches the node is that far from it. -/
def FoundAt (g : Graph) : List (List Nat) → Nat → Nat → Prop
  | [], _, _ => False
  | group :: groups, k, i =>
      g.IsDistance group i k ∨ ¬ g.Reaches group i ∧ FoundAt g groups k i

/-- What waits after a search is closed against the arcs if it was before. -/
theorem closed_without_waves (hw : g.Closed (· ∈ waiting))
    (group : List Nat) :
    let waves := g.waves (without waiting (group.filter waiting.contains))
      (group.filter waiting.contains)
    g.Closed (· ∈ without waiting waves.flatten) := by
  intro waves i j hs hj
  rw [mem_without, mem_flatten_waves hw] at hj ⊢
  have hi := hw i j hs hj.1
  exact ⟨hi, fun h => hj.2 ⟨hj.1, h.2.step hs⟩⟩

theorem holdsAt_searchAll (hw : g.Closed (· ∈ waiting))
    {k i : Nat} :
    HoldsAt (searchAll g waiting groups).1 k i ↔ i ∈ waiting ∧ FoundAt g groups k i := by
  induction groups generalizing waiting with
  | nil => simp [searchAll, FoundAt]
  | cons group groups ih =>
      rw [searchAll]
      dsimp only
      rw [holdsAt_overlay, holdsAt_waves hw, ih (closed_without_waves hw group), mem_without,
        mem_flatten_waves hw, FoundAt]
      tauto

theorem mem_rest_searchAll (hw : g.Closed (· ∈ waiting)) {i : Nat} :
    i ∈ (searchAll g waiting groups).2 ↔ i ∈ waiting ∧ ∀ group ∈ groups, ¬ g.Reaches group i := by
  induction groups generalizing waiting with
  | nil => simp [searchAll]
  | cons group groups ih =>
      rw [searchAll]
      dsimp only
      rw [ih (closed_without_waves hw group), mem_without, mem_flatten_waves hw,
        List.forall_mem_cons]
      tauto

theorem rest_searchAll_sublist (waiting : List Nat) (groups : List (List Nat)) :
    (searchAll g waiting groups).2.Sublist waiting := by
  induction groups generalizing waiting with
  | nil => exact List.Sublist.refl _
  | cons group groups ih => exact (ih _).trans List.filter_sublist

theorem searchAll_perm (hw : waiting.Nodup) (hg : ∀ group ∈ groups, group.Nodup) :
    ((searchAll g waiting groups).1.flatten ++ (searchAll g waiting groups).2).Perm waiting := by
  induction groups generalizing waiting with
  | nil => simp [searchAll]
  | cons group groups ih =>
      let frontier := group.filter waiting.contains
      let waves := g.waves (without waiting frontier) frontier
      have hf : (frontier ++ without waiting frontier).Perm waiting :=
        append_without_perm hw ((hg group List.mem_cons_self).filter _) fun i hi => by
          simpa using (List.mem_filter.1 hi).2
      have hn : waves.flatten.Nodup := nodup_flatten_waves (hf.nodup_iff.2 hw)
      have hs : ∀ i ∈ waves.flatten, i ∈ waiting := fun i hi =>
        hf.subset (List.mem_append.2 (mem_of_mem_waves (nodup_without hw) hi))
      have hrest : (without waiting waves.flatten).Nodup := nodup_without hw
      have hlater := ih hrest fun group hm => hg group (List.mem_cons_of_mem _ hm)
      refine ((flatten_overlay_perm waves _).append_right _).trans ?_
      rw [List.append_assoc]
      exact (hlater.append_left _).trans (append_without_perm hw hn hs)

theorem ne_nil_of_mem_searchAll : ∀ l ∈ (searchAll g waiting groups).1, l ≠ [] := by
  induction groups generalizing waiting with
  | nil => simp [searchAll]
  | cons group groups ih => exact ne_nil_of_mem_overlay (fun _ => waves_ne_nil) ih

/-- Where each group is a single node, the first of them that reaches a node decides. -/
theorem foundAt_singles {seeds : List Nat} (hs : seeds.Pairwise (· < ·)) {k i : Nat} :
    FoundAt g (seeds.map fun s => [s]) k i ↔
      ∃ s, IsLeast {s | s ∈ seeds ∧ g.Reaches [s] i} s ∧ g.IsDistance [s] i k := by
  induction seeds with
  | nil => simp [FoundAt, IsLeast]
  | cons s seeds ih =>
      obtain ⟨hlt, hs⟩ := List.pairwise_cons.1 hs
      rw [List.map_cons, FoundAt, ih hs]
      by_cases h : g.Reaches [s] i
      · have hleast : IsLeast {t | t ∈ s :: seeds ∧ g.Reaches [t] i} s := by
          refine ⟨⟨List.mem_cons_self, h⟩, fun t ht => ?_⟩
          rcases List.mem_cons.1 ht.1 with rfl | hm
          · exact le_rfl
          · exact (hlt t hm).le
        constructor
        · rintro (hd | ⟨hn, _⟩)
          · exact ⟨s, hleast, hd⟩
          · exact absurd h hn
        · rintro ⟨t, ht, hd⟩
          exact .inl (ht.unique hleast ▸ hd)
      · have hset : {t | t ∈ s :: seeds ∧ g.Reaches [t] i} =
            {t | t ∈ seeds ∧ g.Reaches [t] i} := by
          ext t
          constructor
          · rintro ⟨hm, ht⟩
            rcases List.mem_cons.1 hm with rfl | hm
            · exact absurd ht h
            · exact ⟨hm, ht⟩
          · exact fun ⟨hm, ht⟩ => ⟨List.mem_cons_of_mem _ hm, ht⟩
        rw [hset]
        constructor
        · rintro (hd | ⟨_, hd⟩)
          · exact absurd hd.reaches h
          · exact hd
        · exact fun hd => .inr ⟨h, hd⟩

end

def Nonterminal (d : Diagram α) (i : Nat) : Prop := ∃ n, d.nodes[i]? = some n ∧ ¬ n.kind.isTerminal

/-- The nodes from which one does begin: those that neither the roots nor such a node before them
reach. -/
def IsLaterSeed (d : Diagram α) (s : Nat) : Prop :=
  Nonterminal d s ∧ ¬ d.graph.Reaches (rootSet d d.graph) s ∧
    ∀ t, (_ : t < s) → IsLaterSeed d t → ¬ d.graph.Reaches [t] s
termination_by s

theorem rootSet_ne_nil (d : Diagram α) (g : Graph) : rootSet d g ≠ [] := by
  rw [rootSet]
  split
  · simp
  · simp_all

theorem nodup_rootSet (d : Diagram α) (g : Graph) : (rootSet d g).Nodup := by
  rw [rootSet]
  split
  · simp
  · exact List.nodup_range.sublist (map_snd_filter_zipIdx_sublist _ _)

theorem lt_of_mem_rootSet (hd : d.nodes ≠ []) {i : Nat} (h : i ∈ rootSet d g) :
    i < d.nodes.length := by
  rw [rootSet] at h
  split at h
  · rw [List.mem_singleton.1 h]
    cases hk : d.nodes.findIdx? (·.kind = fallbackRoot d.kind) with
    | none => exact List.length_pos_iff.2 hd
    | some k => exact (List.findIdx?_eq_some_iff_getElem.1 hk).1
  · exact List.mem_range.1 ((map_snd_filter_zipIdx_sublist _ _).subset h)

theorem mem_nonterminals {i : Nat} :
    i ∈ positionsOf (fun n : Node α => !n.kind.isTerminal) d.nodes ↔ Nonterminal d i := by
  simp [mem_positionsOf, Nonterminal]

theorem seedGroups_eq (d : Diagram α) (g : Graph) :
    seedGroups d g = rootSet d g ::
      (positionsOf (fun n : Node α => !n.kind.isTerminal) d.nodes).map fun s => [s] := by
  rw [seedGroups, positionsOf, List.map_map]
  rfl

theorem nodup_of_mem_seedGroups {group : List Nat} (h : group ∈ seedGroups d g) : group.Nodup := by
  rw [seedGroups_eq] at h
  rcases List.mem_cons.1 h with rfl | h
  · exact nodup_rootSet d g
  · obtain ⟨s, _, rfl⟩ := List.mem_map.1 h
    exact List.nodup_singleton s

def searched (d : Diagram α) : List (List Nat) :=
  (searchAll d.graph d.graph.nodes (seedGroups d d.graph)).1

def stragglers (d : Diagram α) : List Nat :=
  (searchAll d.graph d.graph.nodes (seedGroups d d.graph)).2

theorem mem_stragglers {i : Nat} :
    i ∈ stragglers d ↔ i < d.nodes.length ∧ ¬ d.graph.Reaches (rootSet d d.graph) i ∧
      ∀ t, Nonterminal d t → ¬ d.graph.Reaches [t] i := by
  rw [stragglers, mem_rest_searchAll d.closed_nodes, seedGroups_eq, List.forall_mem_cons,
    List.forall_mem_map]
  simp only [mem_nonterminals]
  exact and_congr_left' List.mem_range

theorem holdsAt_searched_of_root {k i : Nat} (hi : i < d.nodes.length)
    (h : d.graph.IsDistance (rootSet d d.graph) i k) : HoldsAt (searched d) k i := by
  rw [searched, holdsAt_searchAll d.closed_nodes, seedGroups_eq]
  exact ⟨List.mem_range.2 hi, .inl h⟩

theorem lt_of_reaches {seeds : List Nat} (hs : ∀ s ∈ seeds, s < d.nodes.length) {i : Nat}
    (h : d.graph.Reaches seeds i) : i < d.nodes.length :=
  h.closed (fun _ _ _ hj => (Diagram.lt_of_mem_successors_graph hj).2) hs

theorem Nonterminal.lt {t : Nat} (h : Nonterminal d t) : t < d.nodes.length := by
  obtain ⟨n, hn, _⟩ := h
  exact (List.getElem?_eq_some_iff.1 hn).1

/-- The first node that may begin a search and reaches a given one does begin one. -/
theorem isLeast_laterSeed {i s : Nat} (hr : ¬ d.graph.Reaches (rootSet d d.graph) i)
    (hs : IsLeast {t | Nonterminal d t ∧ d.graph.Reaches [t] i} s) :
    IsLeast {t | IsLaterSeed d t ∧ d.graph.Reaches [t] i} s := by
  obtain ⟨⟨hnon, hreach⟩, hleast⟩ := hs
  have hnonterminal {t : Nat} (h : IsLaterSeed d t) : Nonterminal d t := by
    rw [IsLaterSeed] at h
    exact h.1
  refine ⟨⟨?_, hreach⟩, fun t ht => hleast ⟨hnonterminal ht.1, ht.2⟩⟩
  rw [IsLaterSeed]
  refine ⟨hnon, fun h => hr (h.trans hreach), fun t hlt ht h => ?_⟩
  have hle := hleast ⟨hnonterminal ht, h.trans hreach⟩
  omega

theorem exists_holdsAt_searched {i : Nat} (hr : ¬ d.graph.Reaches (rootSet d d.graph) i)
    (h : ∃ t, Nonterminal d t ∧ d.graph.Reaches [t] i) :
    ∃ s k, IsLeast {t | IsLaterSeed d t ∧ d.graph.Reaches [t] i} s ∧
      d.graph.IsDistance [s] i k ∧ HoldsAt (searched d) k i := by
  classical
  have hleast : IsLeast {t | Nonterminal d t ∧ d.graph.Reaches [t] i} (Nat.find h) :=
    ⟨Nat.find_spec h, fun t ht => Nat.find_min' h ht⟩
  obtain ⟨hnon, hreach⟩ := hleast.1
  obtain ⟨k, hk⟩ := hreach.exists_isDistance
  refine ⟨_, k, isLeast_laterSeed hr hleast, hk, ?_⟩
  rw [searched, holdsAt_searchAll d.closed_nodes, seedGroups_eq]
  refine ⟨List.mem_range.2 (lt_of_reaches (by simpa using hnon.lt) hreach), .inr ⟨hr, ?_⟩⟩
  rw [foundAt_singles (pairwise_positionsOf _ _)]
  simp only [mem_nonterminals]
  exact ⟨_, hleast, hk⟩

/-- The layers are those of the searches, with the stragglers at the end of the last. -/
theorem layers_eq (hd : d.nodes ≠ []) : ∃ earlier last, searched d = earlier ++ [last] ∧
    layers d = earlier ++ [last ++ stragglers d] := by
  have hne : searched d ≠ [] := by
    obtain ⟨r, hr⟩ := List.exists_mem_of_ne_nil _ (rootSet_ne_nil d d.graph)
    obtain ⟨l, hl, _⟩ := holdsAt_searched_of_root (lt_of_mem_rootSet hd hr) (isDistance_zero.2 hr)
    exact List.ne_nil_of_mem (List.mem_of_getElem? hl)
  obtain ⟨earlier, last, he⟩ := List.eq_nil_or_concat (searched d) |>.resolve_left hne
  refine ⟨earlier, last, by simpa using he, ?_⟩
  have hl : layers d = if (stragglers d).isEmpty then searched d
      else appendToLast (searched d) (stragglers d) := by
    rw [layers, if_neg (by simpa using hd)]
    rfl
  rw [hl, he, List.concat_eq_append]
  split
  next hempty => rw [List.isEmpty_iff.1 hempty, List.append_nil]
  next => rw [appendToLast_concat]

theorem ne_nil_of_mem_layers {l : List Nat} (h : l ∈ layers d) : l ≠ [] := by
  by_cases hd : d.nodes = []
  · simp [layers, hd] at h
  · obtain ⟨earlier, last, hs, hl⟩ := layers_eq hd
    have hne : ∀ l ∈ earlier ++ [last], l ≠ [] := hs ▸ ne_nil_of_mem_searchAll
    rw [hl] at h
    rcases List.mem_append.1 h with h | h
    · exact hne l (List.mem_append_left _ h)
    · rw [List.mem_singleton.1 h]
      simp [hne last]

theorem layers_partitions (d : Diagram α) : Partitions (layers d) d.nodes.length := by
  by_cases hd : d.nodes = []
  · simp [Partitions, layers, hd]
  · obtain ⟨earlier, last, hs, hl⟩ := layers_eq hd
    have hp : ((searched d).flatten ++ stragglers d).Perm d.graph.nodes :=
      searchAll_perm d.graph.nodup_nodes fun _ => nodup_of_mem_seedGroups
    rw [hs] at hp
    rw [Partitions, hl]
    simpa [Graph.nodes, Diagram.graph] using hp

end Layout.Layers

open Layout.Layers

/-- Arcs are the edges between two different nodes, and layers are distances along them: from the
roots, or for what the roots do not reach from the first later seed that reaches it. Ends and leaves
that are left stand behind the others in the last layer. -/
theorem Diagram.layers_isDistance (d : Diagram α) (hd : d.nodes ≠ []) :
    (∀ i j, j ∈ d.graph.successors i ↔ i ≠ j ∧ ∃ e ∈ d.edges,
        (d.locate? e.source).map Endpoint.index = some i ∧
          (d.locate? e.target).map Endpoint.index = some j) ∧
      layers d ≠ [] ∧ (∀ l ∈ layers d, l ≠ []) ∧ Partitions (layers d) d.nodes.length ∧
      (∀ i, d.graph.Reaches (rootSet d d.graph) i →
        ∃ k, d.graph.IsDistance (rootSet d d.graph) i k ∧ HoldsAt (layers d) k i) ∧
      (∀ i, ¬ d.graph.Reaches (rootSet d d.graph) i →
        (∃ t, Nonterminal d t ∧ d.graph.Reaches [t] i) →
        ∃ s k, IsLeast {t | IsLaterSeed d t ∧ d.graph.Reaches [t] i} s ∧
          d.graph.IsDistance [s] i k ∧ HoldsAt (layers d) k i) ∧
      ∃ earlier last rest, layers d = earlier ++ [last ++ rest] ∧ last ≠ [] ∧
        rest.Pairwise (· < ·) ∧
        (∀ i, i ∈ rest ↔ i < d.nodes.length ∧ ¬ d.graph.Reaches (rootSet d d.graph) i ∧
          ¬ ∃ t, Nonterminal d t ∧ d.graph.Reaches [t] i) ∧
        ∀ i ∈ rest, ∃ n, d.nodes[i]? = some n ∧ (n.kind = .finish ∨ n.kind = .leaf) := by
  obtain ⟨earlier, last, hs, hl⟩ := layers_eq hd
  have hne : ∀ l ∈ earlier ++ [last], l ≠ [] := hs ▸ ne_nil_of_mem_searchAll
  have hkeep {k i : Nat} (h : HoldsAt (searched d) k i) : HoldsAt (layers d) k i := by
    rw [hl]
    exact holdsAt_concat_append _ (hs ▸ h)
  refine ⟨fun _ _ => Diagram.mem_successors_graph, by simp [hl], ?_, layers_partitions d,
    fun i hi => ?_, fun i hr hi => ?_, earlier, last, stragglers d, hl, hne last (by simp), ?_,
    fun i => ?_, fun i hi => ?_⟩
  · intro l hm
    rw [hl] at hm
    rcases List.mem_append.1 hm with hm | hm
    · exact hne l (List.mem_append_left _ hm)
    · rw [List.mem_singleton.1 hm]
      simp [hne last]
  · obtain ⟨k, hk⟩ := hi.exists_isDistance
    exact ⟨k, hk, hkeep (holdsAt_searched_of_root
      (lt_of_reaches (fun _ => lt_of_mem_rootSet hd) hi) hk)⟩
  · obtain ⟨s, k, hleast, hk, hm⟩ := exists_holdsAt_searched hr hi
    exact ⟨s, k, hleast, hk, hkeep hm⟩
  · exact List.pairwise_lt_range.sublist (rest_searchAll_sublist _ _)
  · simp [mem_stragglers]
  · obtain ⟨hlt, _, hno⟩ := mem_stragglers.1 hi
    have hn := List.getElem?_eq_getElem hlt
    refine ⟨_, hn, ?_⟩
    by_contra hk
    refine hno i ⟨_, hn, ?_⟩ (reaches_of_mem (List.mem_singleton_self i))
    cases h : d.nodes[i].kind <;> simp_all [NodeKind.isTerminal]

def Diagram.twoCycles : Diagram Float32 where
  kind := .generic
  nodes :=
    [⟨"node-1", .generic, 0, 0, 120, 60, "first", none⟩,
      ⟨"node-2", .generic, 0, 0, 120, 60, "second", none⟩,
      ⟨"node-3", .finish, 0, 0, 80, 80, "end", none⟩,
      ⟨"node-4", .finish, 0, 0, 80, 80, "stop", none⟩,
      ⟨"node-5", .generic, 0, 0, 120, 60, "out", none⟩,
      ⟨"node-6", .generic, 0, 0, 120, 60, "back", none⟩]
  edges :=
    [⟨"edge-1", "node-1", "node-2", none, none, none⟩,
      ⟨"edge-2", "node-3", "node-4", none, none, none⟩,
      ⟨"edge-3", "node-4", "node-3", none, none, none⟩,
      ⟨"edge-4", "node-5", "node-6", none, none, none⟩,
      ⟨"edge-5", "node-6", "node-5", none, none, none⟩]
  title := none
  skipped := []
  unresolved := []

theorem Diagram.twoCycles_layers_isDistance :
    Diagram.twoCycles.nodes ≠ [] ∧ layers Diagram.twoCycles = [[0, 4], [1, 5, 2, 3]] ∧
      (Diagram.twoCycles.graph.Reaches [0] 1 ∧
        ∃ k, Diagram.twoCycles.graph.IsDistance [0] 1 k ∧ HoldsAt (layers Diagram.twoCycles) k 1) ∧
      (¬ Diagram.twoCycles.graph.Reaches [0] 5 ∧ Nonterminal Diagram.twoCycles 4 ∧
        Diagram.twoCycles.graph.Reaches [4] 5 ∧
        ∃ s k,
          IsLeast {t | IsLaterSeed Diagram.twoCycles t ∧ Diagram.twoCycles.graph.Reaches [t] 5} s ∧
          Diagram.twoCycles.graph.IsDistance [s] 5 k ∧ HoldsAt (layers Diagram.twoCycles) k 5) := by
  have hne : Diagram.twoCycles.nodes ≠ [] := by decide
  obtain ⟨_, _, _, _, hroot, hlater, _⟩ := Diagram.layers_isDistance Diagram.twoCycles hne
  have hroots : rootSet Diagram.twoCycles Diagram.twoCycles.graph = [0] := by decide +kernel
  rw [hroots] at hroot hlater
  have hone : Diagram.twoCycles.graph.Reaches [0] 1 :=
    (reaches_of_mem (List.mem_singleton_self 0)).step (by decide +kernel)
  have hfive : Diagram.twoCycles.graph.Reaches [4] 5 :=
    (reaches_of_mem (List.mem_singleton_self 4)).step (by decide +kernel)
  have hno : ¬ Diagram.twoCycles.graph.Reaches [0] 5 := by
    intro h
    have hle : 5 ≤ 1 := h.closed (p := (· ≤ 1)) (by decide +kernel) (by decide)
    omega
  have hfour : Nonterminal Diagram.twoCycles 4 := ⟨_, rfl, by decide⟩
  exact ⟨hne, by decide +kernel, ⟨hone, hroot 1 hone⟩, hno, hfour, hfive,
    hlater 5 hno ⟨4, hfour, hfive⟩⟩

end Drafting
