import Drafting.Graph.Forest
import Drafting.Proofs.Graph.Waves

namespace Drafting

namespace Forest

theorem roots_take (n : Nat) (f : Forest) : (f.take n).roots = f.roots.take n := by
  induction n generalizing f with
  | zero => cases f <;> rfl
  | succ n ih =>
      cases f with
      | nil => rfl
      | cons i children siblings => simp [take, roots, ih]

theorem roots_drop (n : Nat) (f : Forest) : (f.drop n).roots = f.roots.drop n := by
  induction n generalizing f with
  | zero => cases f <;> rfl
  | succ n ih =>
      cases f with
      | nil => rfl
      | cons i children siblings => simp [drop, roots, ih]

theorem nodes_take_append_drop (n : Nat) (f : Forest) :
    (f.take n).nodes ++ (f.drop n).nodes = f.nodes := by
  induction n generalizing f with
  | zero => cases f <;> rfl
  | succ n ih =>
      cases f with
      | nil => rfl
      | cons i children siblings => simp [take, drop, nodes, ih]

def depths (depth : Nat) : Forest → List (Nat × Nat)
  | nil => []
  | cons i children siblings => (i, depth) :: (children.depths (depth + 1) ++ siblings.depths depth)

theorem map_fst_depths (k : Nat) (f : Forest) : (f.depths k).map Prod.fst = f.nodes := by
  induction f generalizing k with
  | nil => rfl
  | cons i children siblings ihc ihs => simp [depths, nodes, ihc, ihs]

theorem depths_ofChildren_perm {is : List Nat} {fs : List Forest} (h : is.length = fs.length)
    (k : Nat) :
    ((ofChildren is fs).depths k).Perm (is.map (·, k) ++ fs.flatMap (depths (k + 1))) := by
  induction is generalizing fs with
  | nil =>
      cases fs with
      | nil => rfl
      | cons f fs => simp at h
  | cons i is ih =>
      cases fs with
      | nil => simp at h
      | cons f fs =>
          have hrest := ih (by simpa using h)
          simp only [ofChildren, depths, List.flatMap_cons, List.map_cons, List.cons_append,
            List.perm_cons]
          exact (hrest.append_left _).trans (List.perm_append_comm_assoc _ _ _)

end Forest

namespace Graph

variable {g : Graph} {waiting frontier : List Nat}

theorem length_claims (waiting frontier : List Nat) :
    (g.claims waiting frontier).length = frontier.length := by
  induction frontier generalizing waiting with
  | nil => rfl
  | cons i frontier ih => exact congrArg (· + 1) (ih _)

theorem nodup_flatten_claims (frontier : List Nat) (hw : waiting.Nodup) :
    (g.claims waiting frontier).flatten.Nodup := by
  induction frontier generalizing waiting with
  | nil => exact List.nodup_nil
  | cons i frontier ih =>
      rw [claims, List.flatten_cons]
      refine List.nodup_append'.2 ⟨nodup_reached _ _, ih (nodup_without hw), ?_⟩
      intro j hj hlater
      obtain ⟨children, hc, hm⟩ := List.mem_flatten.1 hlater
      exact (mem_without.1 (mem_of_mem_claims hc hm)).2 hj

theorem mem_of_mem_flatten_claims {i : Nat} (h : i ∈ (g.claims waiting frontier).flatten) :
    i ∈ waiting := by
  obtain ⟨children, hc, hi⟩ := List.mem_flatten.1 h
  exact mem_of_mem_claims hc hi

theorem length_runs {β : Type} (cs : List (List Nat)) (fs : List β) :
    (runs cs fs).length = cs.length := by
  induction cs generalizing fs with
  | nil => rfl
  | cons c cs ih => exact congrArg (· + 1) (ih _)

/-- Below the nodes of a frontier lie those that they claim, and the forests below these. -/
theorem depths_ofChildren_runs_perm {cs : List (List Nat)} {fs : List Forest}
    (h : fs.length = cs.flatten.length) (k : Nat) :
    ((List.zipWith Forest.ofChildren cs (runs cs fs)).flatMap (Forest.depths k)).Perm
      (cs.flatten.map (·, k) ++ fs.flatMap (Forest.depths (k + 1))) := by
  induction cs generalizing fs with
  | nil =>
      rw [List.flatten_nil, List.length_nil, List.length_eq_zero_iff] at h
      simp [h]
  | cons c cs ih =>
      rw [List.flatten_cons, List.length_append] at h
      have hlength : c.length = (fs.take c.length).length := by
        rw [List.length_take]
        omega
      have hfirst := Forest.depths_ofChildren_perm hlength k
      have hrest := ih (show (fs.drop c.length).length = cs.flatten.length by
        rw [List.length_drop]
        omega)
      have hcut : fs.flatMap (Forest.depths (k + 1)) =
          (fs.take c.length).flatMap (Forest.depths (k + 1)) ++
            (fs.drop c.length).flatMap (Forest.depths (k + 1)) := by
        rw [← List.flatMap_append, List.take_append_drop]
      rw [runs, List.zipWith_cons_cons, List.flatMap_cons, hcut, List.flatten_cons,
        List.map_append]
      refine (hfirst.append hrest).trans ?_
      simp only [List.append_assoc]
      exact (List.perm_append_comm_assoc _ _ _).append_left _

theorem nodes_ofChildren_runs_perm {cs : List (List Nat)} {fs : List Forest}
    (h : fs.length = cs.flatten.length) :
    ((List.zipWith Forest.ofChildren cs (runs cs fs)).flatMap Forest.nodes).Perm
      (cs.flatten ++ fs.flatMap Forest.nodes) := by
  have hp := (depths_ofChildren_runs_perm h 0).map Prod.fst
  simpa [List.map_flatMap, Forest.map_fst_depths, Function.comp_def] using hp

theorem length_grow (waiting frontier : List Nat) :
    (g.grow waiting frontier).length = frontier.length := by
  rw [grow]
  dsimp only
  split
  next => exact List.length_map _
  next => rw [List.length_zipWith, length_runs, Nat.min_self, length_claims]

theorem nodes_grow_subperm (hw : waiting.Nodup) (frontier : List Nat) :
    ((g.grow waiting frontier).flatMap Forest.nodes).Subperm waiting := by
  fun_induction grow g waiting frontier with
  | case1 waiting frontier =>
      have hn : (frontier.map fun _ => Forest.nil).flatMap Forest.nodes = [] := by
        simp [Forest.nodes]
      rw [hn]
      exact List.nil_subperm
  | case2 waiting frontier claims next hn below ih =>
      have hp : (next ++ without waiting next).Perm waiting :=
        append_without_perm hw (nodup_flatten_claims frontier hw) fun i =>
          mem_of_mem_flatten_claims
      have hnodes := nodes_ofChildren_runs_perm (length_grow (g := g) (without waiting next) next)
      exact hnodes.subperm.trans
        (((List.subperm_append_left next).2 (ih (nodup_without hw))).trans hp.subperm)

theorem nodes_treeFrom (g : Graph) (waiting : List Nat) (seed : Nat) :
    (g.treeFrom waiting seed).nodes =
      seed :: (g.grow (without waiting [seed]) [seed]).flatMap Forest.nodes := by
  rw [treeFrom, Forest.nodes]
  have hl := length_grow (g := g) (without waiting [seed]) [seed]
  obtain ⟨f, hf⟩ := List.length_eq_one_iff.1 hl
  simp [hf, Forest.nodes]

theorem nodes_treeFrom_subperm (hw : waiting.Nodup) {seed : Nat} (hs : seed ∈ waiting) :
    (g.treeFrom waiting seed).nodes.Subperm waiting := by
  have hp : (seed :: without waiting [seed]).Perm waiting :=
    append_without_perm hw (List.nodup_singleton seed) (by simpa using hs)
  rw [nodes_treeFrom]
  exact ((List.subperm_cons seed).2 (nodes_grow_subperm (nodup_without hw) [seed])).trans hp.subperm

/-- Searches from all that waits leave nothing out and meet nothing twice. -/
theorem nodes_spanFrom_perm {seeds : List Nat} (hw : waiting.Nodup)
    (hs : ∀ i ∈ waiting, i ∈ seeds) :
    ((g.spanFrom waiting seeds).flatMap Forest.nodes).Perm waiting := by
  induction seeds generalizing waiting with
  | nil =>
      rw [List.eq_nil_iff_forall_not_mem.2 fun i hi => List.not_mem_nil (hs i hi)]
      rfl
  | cons seed seeds ih =>
      rw [spanFrom]
      split
      next hm =>
        let tree := g.treeFrom waiting seed
        have hsub : tree.nodes.Subperm waiting := nodes_treeFrom_subperm hw (by simpa using hm)
        have hseed : seed ∈ tree.nodes := by
          rw [nodes_treeFrom]
          exact List.mem_cons_self
        have hn : tree.nodes.Nodup := by
          obtain ⟨kept, hp, hk⟩ := hsub
          exact hp.nodup_iff.1 (hk.nodup hw)
        have hrest : ∀ i ∈ without waiting tree.nodes, i ∈ seeds := by
          intro i hi
          obtain ⟨hi, hne⟩ := mem_without.1 hi
          rcases List.mem_cons.1 (hs i hi) with rfl | hi
          · exact absurd hseed hne
          · exact hi
        rw [List.flatMap_cons]
        exact ((ih (nodup_without hw) hrest).append_left tree.nodes).trans
          (append_without_perm hw hn fun i hi => hsub.subset hi)
      next hm =>
        refine ih hw fun i hi => ?_
        rcases List.mem_cons.1 (hs i hi) with rfl | h
        · exact absurd (by simpa using hi) hm
        · exact h

theorem exists_of_mem_spanFrom {seeds : List Nat} {tree : Forest}
    (h : tree ∈ g.spanFrom waiting seeds) : ∃ root children, tree = .cons root children .nil := by
  induction seeds generalizing waiting with
  | nil => cases h
  | cons seed seeds ih =>
      rw [spanFrom] at h
      split at h
      · rcases List.mem_cons.1 h with rfl | h
        · exact ⟨_, _, rfl⟩
        · exact ih h
      · exact ih h

end Graph

end Drafting
