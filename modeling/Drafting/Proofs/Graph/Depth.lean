import Drafting.Proofs.Graph.Distance
import Drafting.Proofs.Graph.Forest

namespace Drafting

namespace Forest

theorem mem_nodes_iff_depths {k i : Nat} {f : Forest} :
    i ∈ f.nodes ↔ ∃ m, (i, m) ∈ f.depths k := by
  rw [← map_fst_depths k, List.mem_map]
  constructor
  · rintro ⟨⟨_, m⟩, hm, rfl⟩
    exact ⟨m, hm⟩
  · rintro ⟨m, hm⟩
    exact ⟨_, hm, rfl⟩

end Forest

namespace Graph

variable {g : Graph} {waiting frontier seeds : List Nat} {part : Nat → Prop} {k : Nat}

theorem mem_flatten_claims {j : Nat} :
    j ∈ (g.claims waiting frontier).flatten ↔ j ∈ g.reached waiting frontier := by
  induction frontier generalizing waiting with
  | nil => simp [claims, reached]
  | cons i frontier ih =>
      rw [claims, List.flatten_cons, List.mem_append, ih]
      simp only [mem_reached, mem_without, List.exists_mem_cons_iff, List.mem_nil_iff]
      tauto

theorem Front.congr {next : List Nat} (h : Front g seeds part k (without waiting frontier) frontier)
    (hm : ∀ i, i ∈ next ↔ i ∈ frontier) : Front g seeds part k (without waiting next) next := by
  constructor
  · exact fun i => (hm i).trans (h.mem_frontier i)
  · intro i
    rw [← h.mem_waiting, mem_without, mem_without, hm]

theorem Front.next_claims (h : Front g seeds part k waiting frontier)
    (hpart : g.Closed part) :
    Front g seeds part (k + 1) (without waiting (g.claims waiting frontier).flatten)
      (g.claims waiting frontier).flatten :=
  (h.next hpart).congr fun _ => mem_flatten_claims

variable (k) in
/-- What grows from a frontier lies beyond it, each node as deep as it is far away. -/
theorem Front.mem_depths_grow (h : Front g seeds part k waiting frontier)
    (hpart : g.Closed part) {i m : Nat} :
    (i, m) ∈ (g.grow waiting frontier).flatMap (Forest.depths (k + 1)) ↔
      part i ∧ k < m ∧ g.IsDistance seeds i m := by
  fun_induction grow g waiting frontier generalizing k with
  | case1 waiting frontier claims next hn =>
      have hnext := h.next_claims hpart
      rw [show (g.claims waiting frontier).flatten = [] from hn] at hnext
      have hnone : (frontier.map fun _ => Forest.nil).flatMap (Forest.depths (k + 1)) = [] := by
        simp [Forest.depths]
      rw [hnone, iff_false_left List.not_mem_nil]
      rintro ⟨hi, hm, hd⟩
      obtain ⟨n, rfl⟩ := Nat.exists_eq_add_of_lt hm
      exact hnext.not_isDistance hpart n hi (by rwa [Nat.add_right_comm])
  | case2 waiting frontier claims next hn below ih =>
      have hnext : Front g seeds part (k + 1) (without waiting next) next := h.next_claims hpart
      have hp := depths_ofChildren_runs_perm
        (length_grow (g := g) (without waiting next) next) (k + 1)
      rw [hp.mem_iff, List.mem_append, ih (k + 1) hnext]
      have hfirst : (i, m) ∈ next.map (·, k + 1) ↔ m = k + 1 ∧ i ∈ next := by
        simp [eq_comm, and_comm]
      rw [hfirst, hnext.mem_frontier]
      constructor
      · rintro (⟨rfl, hi, hd⟩ | ⟨hi, hm, hd⟩)
        · exact ⟨hi, Nat.lt_succ_self k, hd⟩
        · exact ⟨hi, by omega, hd⟩
      · rintro ⟨hi, hm, hd⟩
        rcases Nat.eq_or_lt_of_le (Nat.succ_le_of_lt hm) with rfl | hlt
        · exact .inl ⟨rfl, hi, hd⟩
        · exact .inr ⟨hi, hlt, hd⟩

theorem mem_depths_treeFrom (hw : g.Closed (· ∈ waiting)) {seed : Nat} (hs : seed ∈ waiting)
    {i m : Nat} :
    (i, m) ∈ (g.treeFrom waiting seed).depths 0 ↔ i ∈ waiting ∧ g.IsDistance [seed] i m := by
  have hfront : Front g [seed] (· ∈ waiting) 0 (without waiting [seed]) [seed] :=
    .start (List.forall_mem_singleton.2 hs)
  have hgrow := hfront.mem_depths_grow 0 hw (i := i) (m := m)
  obtain ⟨f, hf⟩ := List.length_eq_one_iff.1 (length_grow (g := g) (without waiting [seed]) [seed])
  rw [hf, List.flatMap_singleton] at hgrow
  rw [treeFrom, hf, Forest.depths, List.headD_cons, Forest.depths, List.append_nil, List.mem_cons,
    hgrow]
  have hroot : (i, m) = (seed, 0) ↔ m = 0 ∧ i ∈ waiting ∧ g.IsDistance [seed] i m := by
    rw [Prod.mk.injEq, and_comm]
    apply and_congr_right
    rintro rfl
    rw [isDistance_zero, List.mem_singleton]
    exact ⟨fun he => ⟨he ▸ hs, he⟩, And.right⟩
  rw [hroot]
  constructor
  · rintro (⟨-, h⟩ | ⟨hi, -, hd⟩)
    · exact h
    · exact ⟨hi, hd⟩
  · rintro ⟨hi, hd⟩
    rcases Nat.eq_zero_or_pos m with hm | hm
    · exact .inl ⟨hm, hi, hd⟩
    · exact .inr ⟨hi, hm, hd⟩

theorem mem_nodes_treeFrom (hw : g.Closed (· ∈ waiting)) {seed : Nat} (hs : seed ∈ waiting)
    {i : Nat} :
    i ∈ (g.treeFrom waiting seed).nodes ↔ i ∈ waiting ∧ g.Reaches [seed] i := by
  rw [Forest.mem_nodes_iff_depths (k := 0)]
  simp only [mem_depths_treeFrom hw hs, exists_and_left]
  exact and_congr_right fun _ => ⟨fun ⟨_, hd⟩ => hd.reaches, Reaches.exists_isDistance⟩

/-- What a tree leaves is closed again, since the tree has all that one comes to. -/
theorem Closed.without (hw : g.Closed (· ∈ waiting)) {seed : Nat} (hs : seed ∈ waiting) :
    g.Closed (· ∈ without waiting (g.treeFrom waiting seed).nodes) := by
  intro i j hj hm
  obtain ⟨hm, hn⟩ := mem_without.1 hm
  refine mem_without.2 ⟨hw i j hj hm, fun hi => hn ?_⟩
  rw [mem_nodes_treeFrom hw hs] at hi ⊢
  exact ⟨hm, hi.2.step hj⟩

/-- Depths in spanning trees are distances from the root. -/
theorem isDistance_of_mem_depths (hw : g.Closed (· ∈ waiting)) {tree : Forest}
    (ht : tree ∈ g.spanFrom waiting seeds) {i m : Nat} (hm : (i, m) ∈ tree.depths 0) :
    g.IsDistance tree.roots i m := by
  induction seeds generalizing waiting with
  | nil => cases ht
  | cons seed seeds ih =>
      rw [spanFrom] at ht
      split at ht
      next hs =>
        replace hs : seed ∈ waiting := List.contains_iff_mem.1 hs
        rcases List.mem_cons.1 ht with rfl | ht
        · exact ((mem_depths_treeFrom hw hs).1 hm).2
        · exact ih (hw.without hs) ht
      next => exact ih hw ht

end Graph

end Drafting
