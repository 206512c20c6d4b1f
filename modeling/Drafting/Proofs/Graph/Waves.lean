import Drafting.Graph
import Drafting.Proofs.Partition
import Mathlib.Data.List.Perm.Subperm

namespace Drafting.Graph

variable {g : Graph} {waiting taken : List Nat}

theorem mem_without {i : Nat} : i ∈ without waiting taken ↔ i ∈ waiting ∧ i ∉ taken := by
  simp [without]

theorem without_without (waiting taken more : List Nat) :
    without (without waiting taken) more = without waiting (taken ++ more) := by
  simp only [without, List.filter_filter, List.contains_append, Bool.not_or, Bool.and_comm]

theorem without_congr {other : List Nat} (h : ∀ i, i ∈ taken ↔ i ∈ other) :
    without waiting taken = without waiting other :=
  List.filter_congr fun i _ => by simp [h]

theorem nodup_without (h : waiting.Nodup) : (without waiting taken).Nodup := h.filter _

/-- Nothing is lost or doubled when some of what waits is taken. -/
theorem append_without_perm (hw : waiting.Nodup) (ht : taken.Nodup)
    (hs : ∀ i ∈ taken, i ∈ waiting) : (taken ++ without waiting taken).Perm waiting := by
  have he := filter_contains_perm hw ht hs
  exact (he.symm.append_right _).trans (List.filter_append_perm _ waiting)

theorem nodup_nodes (g : Graph) : g.nodes.Nodup := List.nodup_range

theorem nodup_reached (waiting frontier : List Nat) : (g.reached waiting frontier).Nodup :=
  nodup_eraseDups _

theorem flatten_waves_subperm (hw : waiting.Nodup) (frontier : List Nat) :
    (g.waves waiting frontier).flatten.Subperm (frontier ++ waiting) := by
  induction waiting, frontier using waves.induct g with
  | case1 waiting frontier next h he =>
      rw [waves, dif_pos h, if_pos he]
      exact List.nil_subperm
  | case2 waiting frontier next h he =>
      rw [waves, dif_pos h, if_neg he]
      simp [(List.sublist_append_left frontier waiting).subperm]
  | case3 waiting frontier next h ih =>
      have hp : (next ++ without waiting next).Perm waiting :=
        append_without_perm hw (nodup_reached _ _) fun i hi => mem_of_mem_reached hi
      rw [waves, dif_neg h, List.flatten_cons]
      exact (List.subperm_append_left frontier).2 ((ih (nodup_without hw)).trans hp.subperm)

/-- Waves from a frontier that does not wait are nodes without repetition, from it or from those
that wait. -/
theorem nodup_flatten_waves {frontier : List Nat} (h : (frontier ++ waiting).Nodup) :
    (g.waves waiting frontier).flatten.Nodup := by
  obtain ⟨kept, hp, hs⟩ := flatten_waves_subperm (g := g) (List.nodup_append.1 h).2.1 frontier
  exact hp.nodup_iff.1 (hs.nodup h)

theorem mem_of_mem_waves (hw : waiting.Nodup) {frontier : List Nat} {i : Nat}
    (h : i ∈ (g.waves waiting frontier).flatten) : i ∈ frontier ∨ i ∈ waiting :=
  List.mem_append.1 ((flatten_waves_subperm hw frontier).subset h)

end Drafting.Graph
