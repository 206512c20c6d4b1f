import Drafting.Page.Units
import Drafting.Proofs.Graph.Waves
import Drafting.Proofs.Page.Pack

namespace Drafting.Page

open Drafting.Graph

variable {α : Type}

theorem flatten_clustersFrom_perm (g : Graph) {waiting rest : List Nat} (hw : waiting.Nodup)
    (hs : ∀ i ∈ waiting, i ∈ rest) : (clustersFrom g waiting rest).flatten.Perm waiting := by
  induction rest generalizing waiting with
  | nil =>
      have he : waiting = [] :=
        List.eq_nil_iff_forall_not_mem.2 fun i hi => List.not_mem_nil (hs i hi)
      simp [clustersFrom, he]
  | cons i rest ih =>
      rw [clustersFrom]
      split
      next hi =>
        let others := without waiting [i]
        let cluster := i :: ((g.neighbours i).filter others.contains).eraseDups
        have hmem : ∀ j ∈ ((g.neighbours i).filter others.contains).eraseDups,
            j ∈ waiting ∧ j ≠ i := by
          intro j hj
          rw [List.mem_eraseDups, List.mem_filter, List.contains_iff_mem, mem_without] at hj
          exact ⟨hj.2.1, by simpa using hj.2.2⟩
        have hn : cluster.Nodup :=
          List.nodup_cons.2 ⟨fun h => (hmem i h).2 rfl, nodup_eraseDups _⟩
        have hsub : ∀ j ∈ cluster, j ∈ waiting := by
          intro j hj
          rcases List.mem_cons.1 hj with rfl | hj
          · simpa using hi
          · exact (hmem j hj).1
        have hrest : ∀ j ∈ without waiting cluster, j ∈ rest := by
          intro j hj
          obtain ⟨hj, hc⟩ := mem_without.1 hj
          rcases List.mem_cons.1 (hs j hj) with rfl | h
          · exact absurd List.mem_cons_self hc
          · exact h
        rw [List.flatten_cons]
        exact ((ih (nodup_without hw) hrest).append_left cluster).trans
          (append_without_perm hw hn hsub)
      next hi =>
        refine ih hw fun j hj => ?_
        rcases List.mem_cons.1 (hs j hj) with rfl | h
        · exact absurd (by simpa using hj) hi
        · exact h

theorem clusters_partitions (g : Graph) : Partitions (clusters g) g.size :=
  flatten_clustersFrom_perm g g.nodup_nodes fun _ => id

theorem levels_partitions (g : Graph) (isRoot : Nat → Bool) :
    Partitions (levels g isRoot) g.size := by
  let roots := g.nodes.filter isRoot
  let waves := g.waves (without g.nodes roots) roots
  have hr : (roots ++ without g.nodes roots).Perm g.nodes :=
    append_without_perm g.nodup_nodes (g.nodup_nodes.filter _) fun i hi => (List.mem_filter.1 hi).1
  have hn : waves.flatten.Nodup := nodup_flatten_waves (hr.nodup_iff.2 g.nodup_nodes)
  have hs : ∀ i ∈ waves.flatten, i ∈ g.nodes := fun i hi =>
    hr.mem_iff.1 (List.mem_append.2 (mem_of_mem_waves (nodup_without g.nodup_nodes) hi))
  have hp : (waves.flatMap fun w => g.nodes.filter w.contains).Perm waves.flatten := by
    refine (List.Perm.flatMap_left waves fun w hw => ?_).trans (by rw [List.flatMap_id'])
    exact filter_contains_perm g.nodup_nodes ((List.nodup_flatten.1 hn).1 w hw) fun i hi =>
      hs i (List.mem_flatten.2 ⟨w, hw, hi⟩)
  have hlast (ls : List Nat) : (if ls.isEmpty then [] else [ls]).flatten = ls := by
    cases ls <;> simp
  rw [Partitions, levels, List.flatten_append, hlast, ← List.flatMap_def]
  exact (hp.append_right _).trans (append_without_perm g.nodup_nodes hn hs)

theorem levelsOf_partitions (d : Diagram α) : Partitions (levelsOf d) d.nodes.length :=
  levels_partitions d.graph _

variable [Scalar α]

theorem flatten_bandsFrom (tolerance : α) (band : List Nat) (top : α)
    (placed : List (Nat × Rect α)) :
    (bandsFrom tolerance band top placed).flatten = band ++ placed.map Prod.fst := by
  induction placed generalizing band top with
  | nil => simp [bandsFrom]
  | cons p placed ih =>
      rw [bandsFrom]
      split <;> simp [ih]

theorem flatten_bands (tolerance : α) (nodes : List (Node α)) :
    (bands tolerance nodes).flatten =
      (readingOrder nodes (List.range nodes.length)).map Prod.fst := by
  rw [bands]
  cases readingOrder nodes (List.range nodes.length) with
  | nil => rfl
  | cons p placed => simp [flatten_bandsFrom]

theorem bands_partitions (tolerance : α) (nodes : List (Node α)) :
    Partitions (bands tolerance nodes) nodes.length := by
  rw [Partitions, flatten_bands]
  exact map_fst_readingOrder_perm fun i hi => List.mem_range.1 hi

theorem cells_partitions (s : PageSettings α) (area : Rect α) (nodes : List (Node α)) :
    Partitions (cells s area nodes) nodes.length := by
  let placed := nodes.map fun n =>
    Cell.holding area (Scalar.greatest s.maxWidth 1) (Scalar.greatest s.maxHeight 1) n.center
  let keys := placed.eraseDups.mergeSort Cell.before
  have hsort : keys.Perm placed.eraseDups := List.mergeSort_perm _ _
  have hlen : placed.length = nodes.length := List.length_map _
  have hp := buckets_perm (fun i => placed[i]?) (hsort.nodup_iff.2 (nodup_eraseDups _))
    (List.range nodes.length) (by
      intro i _ c hc
      exact hsort.mem_iff.2 (List.mem_eraseDups.2 (List.mem_of_getElem? hc)))
  have hnone : ((List.range nodes.length).filter fun i => placed[i]?.isNone) = [] := by
    refine List.filter_eq_nil_iff.2 fun i hi => ?_
    have hi := List.mem_range.1 hi
    simp [hlen, hi]
  rw [hnone, List.append_nil] at hp
  rw [Partitions, cells, ← List.flatMap_def]
  exact hp

theorem cells_ne_nil {s : PageSettings α} {area : Rect α} {nodes : List (Node α)} :
    ∀ group ∈ cells s area nodes, group ≠ [] := by
  intro group hg
  obtain ⟨c, hc, rfl⟩ := List.mem_map.1 hg
  rw [List.mem_mergeSort, List.mem_eraseDups] at hc
  obtain ⟨i, hi⟩ := List.mem_iff_getElem?.1 hc
  have hl := (List.getElem?_eq_some_iff.1 hi).1
  rw [List.length_map] at hl
  exact List.ne_nil_of_mem (List.mem_filter.2 ⟨List.mem_range.2 hl, by simp [hi]⟩)

end Drafting.Page
