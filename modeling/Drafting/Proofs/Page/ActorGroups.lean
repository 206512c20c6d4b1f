import Drafting.Page.ActorGroups
import Drafting.Proofs.Graph.Waves

namespace Drafting.Page

variable {α : Type}

namespace Owners

variable {g : Graph} {actors : List Nat} {owners : Owners}

def Within (actors : List Nat) (owners : Owners) : Prop := ∀ a, some a ∈ owners → a ∈ actors

theorem Within.mem (h : Within actors owners) {i a : Nat} (hi : owners.getD i none = some a) :
    a ∈ actors := by
  refine h a ?_
  rw [List.getD_eq_getElem?_getD] at hi
  cases hg : owners[i]? with
  | none => simp [hg] at hi
  | some o =>
      have ho : o = some a := by simpa [hg] using hi
      exact ho ▸ List.mem_of_getElem? hg

theorem mem_of_strongest {i a : Nat} (h : strongest g actors i = some a) : a ∈ actors := by
  obtain ⟨⟨b, links⟩, hb, rfl⟩ := Option.map_eq_some_iff.1 h
  refine List.foldlRecOn actors _ (motive := fun best => ∀ p, best = some p → p.1 ∈ actors)
    (by simp) ?_ _ hb
  intro best hbest c hc p hp
  rcases (ite_eq_or_eq _ _ _).imp hp.symm.trans hp.symm.trans with he | he
  · cases he
    exact hc
  · exact hbest p he.symm

theorem within_direct (g : Graph) (actors : List Nat) : Within actors (direct g actors) := by
  intro a ha
  obtain ⟨i, _, hi⟩ := List.mem_map.1 ha
  split at hi
  · cases hi
  · exact mem_of_strongest hi

theorem Within.of_inherited (h : Within actors owners) {i a : Nat}
    (hi : inherited g actors owners i = some a) : a ∈ actors := by
  obtain ⟨j, _, hj⟩ := List.exists_of_findSome?_eq_some hi
  split at hj
  · cases hj
  · exact h.mem hj

theorem Within.sweep (h : Within actors owners) : Within actors (sweep g actors owners) := by
  refine List.foldlRecOn g.nodes _ h ?_
  intro owners h i _
  split
  · exact h
  · intro a ha
    rcases List.mem_or_eq_of_mem_set ha with ha | ha
    · exact h a ha
    · exact h.of_inherited ha.symm

/-- What a sweep preserves holds when all sweeps are done. -/
theorem settle_of_sweep {P : Owners → Prop}
    (hsweep : ∀ owners, P owners → P (sweep g actors owners)) (h : P owners) :
    P (settle g actors owners) := by
  induction owners using settle.induct g actors with
  | case1 owners next hlt ih =>
      rw [settle, if_pos hlt]
      exact ih (hsweep owners h)
  | case2 owners next hlt =>
      rw [settle, if_neg hlt]
      exact h

theorem Within.settle (h : Within actors owners) : Within actors (settle g actors owners) :=
  settle_of_sweep (fun _ => Within.sweep) h

end Owners

open Drafting.Graph

theorem actorGroups_partitions (d : Diagram α) : Partitions (actorGroups d) d.nodes.length := by
  let g := d.graph
  let actors := (d.nodes.zipIdx.filter fun p => p.1.kind = .actor).map Prod.snd
  let owners := Owners.settle g actors (Owners.direct g actors)
  let cases := without g.nodes actors
  let orphans := cases.filter fun i => (owners.getD i none).isNone
  have hs : actors.Sublist g.nodes := map_snd_filter_zipIdx_sublist _ _
  have hn : actors.Nodup := hs.nodup g.nodup_nodes
  have howners : Owners.Within actors owners := (Owners.within_direct g actors).settle
  have hcases : ((actors.flatMap fun a => cases.filter fun i => owners.getD i none == some a) ++
      orphans).Perm cases := buckets_perm _ hn cases fun i _ a ha => howners.mem ha
  have hgroups : (actors.flatMap fun a =>
      a :: cases.filter fun i => owners.getD i none == some a).Perm
      (actors ++ actors.flatMap fun a => cases.filter fun i => owners.getD i none == some a) := by
    have h := List.map_append_flatMap_perm actors id fun a =>
      cases.filter fun i => owners.getD i none == some a
    rw [List.map_id] at h
    exact h.symm
  have hlast : (if orphans.isEmpty then [] else [orphans]).flatten = orphans := by
    cases orphans <;> simp
  change ((actors.map _ ++ if orphans.isEmpty then [] else [orphans]).flatten).Perm g.nodes
  rw [List.flatten_append, hlast, ← List.flatMap_def]
  refine (hgroups.append_right orphans).trans ?_
  rw [List.append_assoc]
  refine (hcases.append_left actors).trans ?_
  exact append_without_perm g.nodup_nodes hn fun _ hi => hs.subset hi

end Drafting.Page
