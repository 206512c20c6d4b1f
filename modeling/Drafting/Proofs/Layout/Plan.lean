import Mathlib.Algebra.BigOperators.Ring.Finset
import Drafting.Proofs.Graph.Depth
import Drafting.Proofs.Graph.Search
import Drafting.Proofs.Graph.Weight
import Drafting.Proofs.Layout.Mindmap

namespace Drafting

namespace Forest

theorem Follows.descendants_perm {below : Nat → List Nat} {f : Forest} (h : f.Follows below) :
    f.descendants.Perm (f.nodes.flatMap below) := by
  induction f with
  | nil => rfl
  | cons i children siblings ihc ihs =>
      obtain ⟨hr, hc, hs⟩ := h
      have hchildren := children.nodes_perm.trans ((ihc hc).append_left children.roots)
      rw [descendants, nodes, List.flatMap_cons, List.flatMap_append, ← List.append_assoc, ← hr]
      exact hchildren.append (ihs hs)

/-- A node is in one tree only. -/
theorem eq_of_mem_nodes {trees : List Forest} (h : (trees.flatMap nodes).Nodup)
    {tree other : Forest} (ht : tree ∈ trees) (ho : other ∈ trees) {i : Nat} (hi : i ∈ tree.nodes)
    (hio : i ∈ other.nodes) : tree = other := by
  by_contra hne
  have hsymm : Std.Symm (Function.onFun List.Disjoint nodes) := ⟨fun _ _ hd => hd.symm⟩
  exact (List.nodup_flatMap.1 h).2.forall ht ho hne hi hio

end Forest

namespace Layout.Mindmap

open Drafting.Graph

structure Plan where
  roots : List Nat
  children : Nat → List Nat
  depth : Nat → Nat
  weight : Nat → Nat

def Plan.span {β : Type} [NatCast β] [Mul β] (p : Plan) (unit : β) (i : Nat) : β :=
  (p.weight i : β) * unit

def search {α : Type} (d : Diagram α) : Search :=
  Search.run d.graph (preferredRoots d d.graph ++ d.graph.nodes)

def plan {α : Type} (d : Diagram α) : Plan where
  roots := (search d).roots
  children := (search d).children
  depth := (search d).depth
  weight := weights (search d).children (search d).order

/-- A row of trees is in the tables, its roots at the given depth. -/
def Plan.Shows (p : Plan) : Nat → Forest → Prop
  | _, .nil => True
  | k, .cons i children siblings =>
      p.children i = children.roots ∧ p.depth i = k ∧ p.weight i = max 1 children.weight ∧
        p.Shows (k + 1) children ∧ p.Shows k siblings

variable {α : Type} {p : Plan} {f : Forest} {k : Nat}

theorem Plan.shows_of_follows (hf : f.Follows p.children)
    (hd : ∀ i, ∀ j ∈ p.children i, p.depth j = p.depth i + 1) (hk : ∀ i ∈ f.roots, p.depth i = k)
    (hw : ∀ i ∈ f.nodes, Balanced p.children p.weight i) : p.Shows k f := by
  induction f generalizing k with
  | nil => trivial
  | cons i children siblings ihc ihs =>
      have hmax := hf.weight_eq_max hw
      obtain ⟨hr, hc, hs⟩ := hf
      rw [Forest.nodes, List.forall_mem_cons, List.forall_mem_append] at hw
      obtain ⟨hi, hks⟩ := List.forall_mem_cons.1 hk
      refine ⟨hr.symm, hi, hmax, ihc hc (fun j hj => ?_) hw.2.1, ihs hs hks hw.2.2⟩
      rw [hd i j (hr ▸ hj), hi]

theorem Plan.Shows.take (h : p.Shows k f) (n : Nat) : p.Shows k (f.take n) := by
  induction n generalizing f with
  | zero => cases f <;> trivial
  | succ n ih =>
      cases f with
      | nil => trivial
      | cons i children siblings =>
          obtain ⟨hr, hi, hw, hc, hs⟩ := h
          exact ⟨hr, hi, hw, hc, ih hs⟩

theorem Plan.Shows.drop (h : p.Shows k f) (n : Nat) : p.Shows k (f.drop n) := by
  induction n generalizing f with
  | zero => cases f <;> exact h
  | succ n ih =>
      cases f with
      | nil => trivial
      | cons i children siblings => exact ih h.2.2.2.2

theorem Plan.Shows.depth_eq (h : p.Shows k f) {i m : Nat} (hm : (i, m) ∈ f.depths k) :
    p.depth i = m := by
  induction f generalizing k with
  | nil => cases hm
  | cons r children siblings ihc ihs =>
      obtain ⟨-, hr, -, hc, hs⟩ := h
      rw [Forest.depths, List.mem_cons, List.mem_append] at hm
      rcases hm with hm | hm | hm
      · cases hm
        exact hr
      · exact ihc hc hm
      · exact ihs hs hm

variable (d : Diagram α)

theorem mem_seeds (d : Diagram α) :
    ∀ i ∈ d.graph.nodes, i ∈ preferredRoots d d.graph ++ d.graph.nodes :=
  fun _ => List.mem_append_right _

theorem nodes_trees_perm : ((trees d).flatMap Forest.nodes).Perm d.graph.nodes :=
  nodes_spanFrom_perm d.graph.nodup_nodes (mem_seeds d)

theorem sound_search : (search d).Sound d.graph := (Search.Sound.run d.graph _).1

theorem spanned_search : Search.Spanned (trees d) (.blank d.graph) (search d) :=
  Search.spanned_run d.graph _

theorem queue_search : (search d).queue = [] := (Search.Sound.run d.graph _).2

theorem order_search_perm : (search d).order.Perm d.graph.nodes := by
  have hn := (sound_search d).nodes
  rwa [queue_search, show (search d).waiting = [] from Search.waiting_run (mem_seeds d),
    List.append_nil, List.append_nil] at hn

theorem ordered_search : Ordered (search d).children (search d).order := by
  have hsound := sound_search d
  have horder : (search d).order ++ (search d).queue = (search d).order := by
    rw [queue_search, List.append_nil]
  constructor
  case nodup => exact (order_search_perm d).nodup_iff.2 d.graph.nodup_nodes
  case inside => exact fun i _ j hj => horder ▸ hsound.met i j hj
  case loopless =>
    intro i _ hi
    exact absurd (hsound.deeper i i hi) (Nat.succ_ne_self _).symm
  case ahead => exact horder ▸ hsound.ahead

theorem roots_plan : (plan d).roots = (trees d).flatMap Forest.roots := (spanned_search d).roots

variable {d}

theorem follows_of_mem_trees {tree : Forest} (ht : tree ∈ trees d) :
    tree.Follows (plan d).children :=
  (spanned_search d).follows tree ht

theorem balanced_plan {i : Nat} (hi : i ∈ d.graph.nodes) :
    Balanced (plan d).children (plan d).weight i :=
  (ordered_search d).balanced ((order_search_perm d).mem_iff.2 hi)

theorem mem_nodes_of_mem_trees {tree : Forest} (ht : tree ∈ trees d) {i : Nat}
    (hi : i ∈ tree.nodes) : i ∈ d.graph.nodes :=
  (nodes_trees_perm d).mem_iff.1 (List.mem_flatMap.2 ⟨tree, ht, hi⟩)

/-- The tables show the trees that are placed. -/
theorem shows_of_mem_trees {tree : Forest} (ht : tree ∈ trees d) : (plan d).Shows 0 tree := by
  refine Plan.shows_of_follows (follows_of_mem_trees ht) (sound_search d).deeper (fun i hi => ?_)
    fun i hi => balanced_plan (mem_nodes_of_mem_trees ht hi)
  refine (sound_search d).ground i (.inr ?_)
  change i ∈ (plan d).roots
  rw [roots_plan]
  exact List.mem_flatMap.2 ⟨tree, ht, hi⟩

variable (d)

theorem roots_append_children_perm :
    ((plan d).roots ++ d.graph.nodes.flatMap (plan d).children).Perm d.graph.nodes := by
  have hbelow : ((trees d).flatMap Forest.descendants).Perm
      (d.graph.nodes.flatMap (plan d).children) := by
    refine (List.Perm.flatMap_left _ fun tree ht =>
      (follows_of_mem_trees ht).descendants_perm).trans ?_
    rw [← List.flatMap_assoc]
    exact (nodes_trees_perm d).flatMap_right _
  rw [roots_plan]
  exact (hbelow.symm.append_left _).trans
    ((Forest.flatMap_nodes_perm _).symm.trans (nodes_trees_perm d))

variable {d}

theorem exists_tree_of_mem_nodes {i : Nat} (hi : i ∈ d.graph.nodes) :
    ∃ tree ∈ trees d, i ∈ tree.nodes :=
  List.mem_flatMap.1 ((nodes_trees_perm d).mem_iff.2 hi)

theorem exists_tree_of_mem_roots {root : Nat} (h : root ∈ (plan d).roots) :
    ∃ tree ∈ trees d, tree.roots = [root] := by
  rw [roots_plan] at h
  obtain ⟨tree, ht, hr⟩ := List.mem_flatMap.1 h
  obtain ⟨r, children, rfl⟩ := exists_of_mem_spanFrom ht
  exact ⟨_, ht, by rw [List.mem_singleton.1 hr]; rfl⟩

theorem mem_nodes_iff_descends {tree : Forest} (ht : tree ∈ trees d) {root : Nat}
    (hr : tree.roots = [root]) {i : Nat} :
    i ∈ tree.nodes ↔ Descends (plan d).children root i := by
  rw [(follows_of_mem_trees ht).mem_nodes_iff, hr]
  simp

theorem existsUnique_root {i : Nat} (hi : i ∈ d.graph.nodes) :
    ∃! root, root ∈ (plan d).roots ∧ Descends (plan d).children root i := by
  obtain ⟨tree, ht, hit⟩ := exists_tree_of_mem_nodes hi
  obtain ⟨root, children, rfl⟩ := exists_of_mem_spanFrom ht
  have hroot : root ∈ (plan d).roots := by
    rw [roots_plan]
    exact List.mem_flatMap.2 ⟨_, ht, List.mem_cons_self⟩
  refine ⟨root, ⟨hroot, (mem_nodes_iff_descends ht rfl).1 hit⟩, ?_⟩
  rintro other ⟨ho, hl⟩
  obtain ⟨tree, htree, hr⟩ := exists_tree_of_mem_roots ho
  have hnodup := (nodes_trees_perm d).nodup_iff.2 d.graph.nodup_nodes
  have hsame := Forest.eq_of_mem_nodes hnodup htree ht ((mem_nodes_iff_descends htree hr).2 hl) hit
  rw [hsame] at hr
  exact (List.cons.inj hr).1.symm

/-- A node is as deep as it is far from the root of its tree. -/
theorem isDistance_depth {root i : Nat} (hr : root ∈ (plan d).roots)
    (hl : Descends (plan d).children root i) :
    d.graph.IsDistance [root] i ((plan d).depth i) := by
  obtain ⟨tree, ht, hroot⟩ := exists_tree_of_mem_roots hr
  obtain ⟨m, hm⟩ := (Forest.mem_nodes_iff_depths (k := 0)).1
    ((mem_nodes_iff_descends ht hroot).2 hl)
  rw [(shows_of_mem_trees ht).depth_eq hm, ← hroot]
  exact isDistance_of_mem_depths d.closed_nodes ht hm

/-- A node weighs as much as there are leaves below it. -/
theorem ncard_leaves_plan {i : Nat} (hi : i ∈ d.graph.nodes) :
    {j | Descends (plan d).children i j ∧ (plan d).children j = []}.ncard = (plan d).weight i := by
  obtain ⟨tree, ht, hit⟩ := exists_tree_of_mem_nodes hi
  have hnodup := (nodes_trees_perm d).nodup_iff.2 d.graph.nodup_nodes
  exact (follows_of_mem_trees ht).ncard_leaves ((List.nodup_flatMap.1 hnodup).1 tree ht)
    (fun j hj => balanced_plan (mem_nodes_of_mem_trees ht hj)) hit

/-- The bands of the children fill the band of their parent. -/
theorem sum_span_children {K : Type} [Semiring K] (unit : K) {i : Nat} (hi : i ∈ d.graph.nodes)
    (hc : (plan d).children i ≠ []) :
    (((plan d).children i).map ((plan d).span unit)).sum = (plan d).span unit i := by
  have hw := balanced_plan hi
  rw [Balanced, if_neg hc] at hw
  rw [Plan.span, hw, Nat.cast_list_sum, List.map_map, ← List.sum_map_mul_right]
  rfl

end Layout.Mindmap

end Drafting
