import Mathlib.Logic.Function.Basic
import Drafting.Proofs.Graph.Tree

namespace Drafting

open Drafting.Graph

structure Search where
  waiting : List Nat
  queue : List Nat
  order : List Nat
  roots : List Nat
  children : Nat → List Nat
  depth : Nat → Nat

namespace Search

def blank (g : Graph) : Search := ⟨g.nodes, [], [], [], fun _ => [], fun _ => 0⟩

def meet (i : Nat) (s : Search) (j : Nat) : Search :=
  if s.waiting.contains j then
    { s with
      waiting := without s.waiting [j]
      queue := s.queue ++ [j]
      children := Function.update s.children i (s.children i ++ [j])
      depth := Function.update s.depth j (s.depth i + 1) }
  else s

def expand (g : Graph) (s : Search) (i : Nat) : Search :=
  (g.successors i).foldl (meet i) { s with order := s.order ++ [i] }

variable {g : Graph} {s : Search} {i j : Nat}

theorem size_meet_le (i : Nat) (s : Search) (j : Nat) :
    (meet i s j).waiting.length + (meet i s j).queue.length ≤
      s.waiting.length + s.queue.length := by
  rw [meet]
  split
  next hj =>
    have hlt := length_without_lt (List.contains_iff_mem.1 hj) (List.mem_singleton_self j)
    rw [List.length_append, List.length_singleton]
    dsimp only
    omega
  next => exact le_rfl

theorem size_expand_le (g : Graph) (s : Search) (i : Nat) :
    (expand g s i).waiting.length + (expand g s i).queue.length ≤
      s.waiting.length + s.queue.length := by
  rw [expand]
  apply List.foldlRecOn (g.successors i) (meet i)
    (motive := fun t => t.waiting.length + t.queue.length ≤ s.waiting.length + s.queue.length)
  · exact le_rfl
  · exact fun t ht j _ => (size_meet_le i t j).trans ht

def drain (g : Graph) (s : Search) : Search :=
  match _ : s.queue with
  | [] => s
  | i :: queue => drain g (expand g { s with queue } i)
termination_by s.waiting.length + s.queue.length
decreasing_by
  have hle := size_expand_le g { s with queue } i
  rw [show s.queue = i :: queue by assumption, List.length_cons]
  exact Nat.lt_succ_of_le hle

def enter (s : Search) (seed : Nat) : Search :=
  { s with waiting := without s.waiting [seed], queue := [seed], roots := s.roots ++ [seed] }

def start (g : Graph) (s : Search) (seed : Nat) : Search :=
  if s.waiting.contains seed then drain g (enter s seed) else s

def run (g : Graph) (seeds : List Nat) : Search := seeds.foldl (start g) (blank g)

theorem drain_nil (h : s.queue = []) : drain g s = s := by
  rw [drain]
  split
  next => rfl
  next i queue hq => cases h.symm.trans hq

theorem drain_cons {queue : List Nat} (h : s.queue = i :: queue) :
    drain g s = drain g (expand g { s with queue } i) := by
  rw [drain]
  split
  next hq => cases h.symm.trans hq
  next i' queue' hq =>
    cases h.symm.trans hq
    rfl

/-- A property that every node that is left preserves holds of what is left in the end. -/
theorem drain_induction {p : Search → Prop} (hp : ∀ t i queue, p t → t.queue = i :: queue →
    p (expand g { t with queue } i)) (h : p s) : p (drain g s) ∧ (drain g s).queue = [] := by
  fun_induction drain g s with
  | case1 s hq => exact ⟨h, hq⟩
  | case2 s i queue hq ih => exact ih (hp s i queue h hq)

theorem mem_update_append {below : Nat → List Nat} {a k : Nat} :
    k ∈ Function.update below i (below i ++ [j]) a ↔ k ∈ below a ∨ a = i ∧ k = j := by
  rw [Function.update_apply]
  split
  next h => simp [h]
  next h => simp [h]

/-- What holds of the tables at all times. Nodes are met once, children where an arc leads to them
and one deeper than their parent, and no node is in the order ahead of its parent. -/
structure Sound (g : Graph) (s : Search) : Prop where
  nodes : (s.order ++ s.queue ++ s.waiting).Perm g.nodes
  bare : ∀ i, i ∉ s.order → s.children i = []
  arcs : ∀ i, ∀ j ∈ s.children i, j ∈ g.successors i
  met : ∀ i, ∀ j ∈ s.children i, j ∈ s.order ++ s.queue
  deeper : ∀ i, ∀ j ∈ s.children i, s.depth j = s.depth i + 1
  roots : ∀ i ∈ s.roots, i ∈ s.order ++ s.queue
  ground : ∀ i, i ∈ s.waiting ∨ i ∈ s.roots → s.depth i = 0
  ahead : (s.order ++ s.queue).Pairwise fun i j => i ∉ s.children j

namespace Sound

theorem blank (g : Graph) : (blank g).Sound g := by
  constructor <;> simp [Search.blank]

theorem nodup (h : s.Sound g) : (s.order ++ s.queue ++ s.waiting).Nodup :=
  h.nodes.nodup_iff.2 g.nodup_nodes

theorem not_mem_of_waiting (h : s.Sound g) (hi : i ∈ s.waiting) : i ∉ s.order ++ s.queue :=
  fun hm => (List.nodup_append'.1 h.nodup).2.2 hm hi

theorem mem_order (h : s.Sound g) (hj : j ∈ s.children i) : i ∈ s.order := by
  by_contra hi
  rw [h.bare i hi] at hj
  cases hj

theorem meet (h : s.Sound g) (hi : i ∈ s.order) (hj : j ∈ g.successors i) :
    (meet i s j).Sound g := by
  rw [Search.meet]
  split
  case isFalse => exact h
  case isTrue hw =>
    replace hw : j ∈ s.waiting := List.contains_iff_mem.1 hw
    have hnew : j ∉ s.order ++ s.queue := h.not_mem_of_waiting hw
    have hne {k : Nat} (hk : k ∈ s.order ++ s.queue) : k ≠ j := ne_of_mem_of_not_mem hk hnew
    have hdepth {k : Nat} (hk : k ∈ s.order ++ s.queue) :
        Function.update s.depth j (s.depth i + 1) k = s.depth k :=
      Function.update_of_ne (hne hk) _ _
    constructor
    all_goals dsimp only
    case nodes =>
      have hp : ([j] ++ without s.waiting [j]).Perm s.waiting :=
        append_without_perm (List.nodup_append'.1 h.nodup).2.1 (List.nodup_singleton j)
          (List.forall_mem_singleton.2 hw)
      simp only [← List.append_assoc]
      rw [List.append_assoc _ [j]]
      exact (hp.append_left _).trans h.nodes
    case bare =>
      intro k hk
      rw [Function.update_of_ne (ne_of_mem_of_not_mem hi hk).symm]
      exact h.bare k hk
    case arcs =>
      intro a k hk
      rcases mem_update_append.1 hk with hk | ⟨rfl, rfl⟩
      · exact h.arcs a k hk
      · exact hj
    case met =>
      intro a k hk
      rw [← List.append_assoc, List.mem_append]
      rcases mem_update_append.1 hk with hk | ⟨rfl, rfl⟩
      · exact .inl (h.met a k hk)
      · exact .inr (List.mem_singleton_self k)
    case deeper =>
      intro a k hk
      rcases mem_update_append.1 hk with hk | ⟨rfl, rfl⟩
      · rw [hdepth (h.met a k hk), hdepth (List.mem_append_left _ (h.mem_order hk))]
        exact h.deeper a k hk
      · rw [hdepth (List.mem_append_left _ hi), Function.update_self]
    case roots =>
      intro k hk
      rw [← List.append_assoc]
      exact List.mem_append_left _ (h.roots k hk)
    case ground =>
      intro k hk
      have hkj : k ≠ j := by
        rcases hk with hk | hk
        · exact fun he => (mem_without.1 hk).2 (List.mem_singleton.2 he)
        · exact hne (h.roots k hk)
      rw [Function.update_of_ne hkj]
      exact h.ground k (hk.imp_left fun hk => (mem_without.1 hk).1)
    case ahead =>
      rw [← List.append_assoc, List.pairwise_append]
      refine ⟨h.ahead.imp_of_mem fun {a b} ha hb hab => ?_, List.pairwise_singleton _ _, ?_⟩
      · rw [mem_update_append, not_or]
        exact ⟨hab, fun hk => hne ha hk.2⟩
      · intro a ha b hb
        rw [List.mem_singleton.1 hb, mem_update_append, not_or]
        have hbare : s.children j = [] := h.bare j fun hm => hnew (List.mem_append_left _ hm)
        exact ⟨by simp [hbare], fun hk => hne ha hk.2⟩

theorem expand {queue : List Nat} (h : s.Sound g) (hq : s.queue = i :: queue) :
    (expand g { s with queue } i).Sound g := by
  have hmove : s.order ++ s.queue = s.order ++ [i] ++ queue := by simp [hq]
  have hleft : Search.Sound g { s with queue, order := s.order ++ [i] } :=
    { nodes := hmove ▸ h.nodes
      bare := fun k hk => h.bare k fun hm => hk (List.mem_append_left _ hm)
      arcs := h.arcs
      met := hmove ▸ h.met
      deeper := h.deeper
      roots := hmove ▸ h.roots
      ground := h.ground
      ahead := hmove ▸ h.ahead }
  have hall : (Search.expand g { s with queue } i).Sound g ∧
      i ∈ (Search.expand g { s with queue } i).order := by
    rw [Search.expand]
    apply List.foldlRecOn (g.successors i) (Search.meet i)
      (motive := fun t => t.Sound g ∧ i ∈ t.order)
    · exact ⟨hleft, by simp⟩
    · intro t ⟨ht, hi⟩ j hj
      refine ⟨ht.meet hi hj, ?_⟩
      rw [Search.meet]
      split <;> exact hi
  exact hall.1

theorem drain (h : s.Sound g) : (drain g s).Sound g ∧ (drain g s).queue = [] :=
  drain_induction (fun _ _ _ ht hq => ht.expand hq) h

theorem enter (h : s.Sound g) (hq : s.queue = []) {seed : Nat} (hs : seed ∈ s.waiting) :
    (enter s seed).Sound g := by
  have horder : s.order ++ s.queue = s.order := by rw [hq, List.append_nil]
  have hnew : seed ∉ s.order := horder ▸ h.not_mem_of_waiting hs
  constructor
  case nodes =>
    have hp : ([seed] ++ without s.waiting [seed]).Perm s.waiting :=
      append_without_perm (List.nodup_append'.1 h.nodup).2.1 (List.nodup_singleton seed)
        (List.forall_mem_singleton.2 hs)
    have hn := h.nodes
    rw [horder] at hn
    rw [Search.enter, List.append_assoc]
    exact (hp.append_left _).trans hn
  case bare => exact h.bare
  case arcs => exact h.arcs
  case met => exact fun i j hj => List.mem_append_left _ (horder ▸ h.met i j hj)
  case deeper => exact h.deeper
  case roots =>
    intro i hi
    rcases List.mem_append.1 hi with hi | hi
    · exact List.mem_append_left _ (horder ▸ h.roots i hi)
    · exact List.mem_append_right _ hi
  case ground =>
    intro i hi
    apply h.ground i
    rcases hi with hi | hi
    · exact .inl (mem_without.1 hi).1
    · refine (List.mem_append.1 hi).symm.imp_left fun hi => ?_
      rw [List.mem_singleton.1 hi]
      exact hs
  case ahead =>
    refine List.pairwise_append.2 ⟨horder ▸ h.ahead, List.pairwise_singleton _ _, ?_⟩
    intro i _ j hj
    rw [List.mem_singleton.1 hj, Search.enter, h.bare seed hnew]
    exact List.not_mem_nil

theorem start (h : s.Sound g) (hq : s.queue = []) (seed : Nat) :
    (start g s seed).Sound g ∧ (start g s seed).queue = [] := by
  rw [Search.start]
  split
  case isFalse => exact ⟨h, hq⟩
  case isTrue hs => exact (h.enter hq (List.contains_iff_mem.1 hs)).drain

theorem run (g : Graph) (seeds : List Nat) : (run g seeds).Sound g ∧ (run g seeds).queue = [] := by
  rw [Search.run]
  apply List.foldlRecOn seeds (Search.start g) (motive := fun t => t.Sound g ∧ t.queue = [])
  · exact ⟨blank g, rfl⟩
  · exact fun t ht seed _ => ht.1.start ht.2 seed

end Sound

structure Passed (g : Graph) (frontier : List Nat) (s t : Search) : Prop where
  waiting : t.waiting = without s.waiting (g.claims s.waiting frontier).flatten
  queue : t.queue = s.queue ++ (g.claims s.waiting frontier).flatten
  roots : t.roots = s.roots
  children : frontier.map t.children = g.claims s.waiting frontier
  others : ∀ i ∉ frontier, t.children i = s.children i

theorem foldl_meet (i : Nat) (js : List Nat) (s : Search) :
    let found := (js.filter s.waiting.contains).eraseDups
    let t := js.foldl (meet i) s
    t.waiting = without s.waiting found ∧ t.queue = s.queue ++ found ∧ t.roots = s.roots ∧
      t.children = Function.update s.children i (s.children i ++ found) := by
  induction js generalizing s with
  | nil => simp [without]
  | cons j js ih =>
      obtain ⟨hw, hq, hr, hc⟩ := ih (meet i s j)
      rw [List.foldl_cons]
      dsimp only
      rw [hw, hq, hr, hc, meet]
      by_cases hj : s.waiting.contains j
      · have hfound : ((j :: js).filter s.waiting.contains).eraseDups =
            j :: (js.filter (without s.waiting [j]).contains).eraseDups := by
          rw [List.filter_cons_of_pos hj, List.eraseDups_cons, List.filter_filter]
          congr 3
          funext k
          rw [Bool.eq_iff_iff]
          simp [mem_without, and_comm]
        rw [if_pos hj, hfound, without_without]
        simp
      · rw [if_neg hj, List.filter_cons_of_neg hj]
        exact ⟨rfl, rfl, rfl, rfl⟩

theorem passed_expand (hb : s.children i = []) : Passed g [i] s (expand g s i) := by
  obtain ⟨hw, hq, hr, hc⟩ := foldl_meet i (g.successors i) { s with order := s.order ++ [i] }
  have hclaims : g.claims s.waiting [i] =
      [((g.successors i).filter s.waiting.contains).eraseDups] := by
    rw [claims, claims, reached, List.flatMap_singleton]
  rw [expand]
  constructor
  case waiting => rw [hw, hclaims, List.flatten_singleton]
  case queue => rw [hq, hclaims, List.flatten_singleton]
  case roots => exact hr
  case children => simp [hc, hclaims, hb]
  case others =>
    intro k hk
    rw [hc, Function.update_of_ne (fun he => hk (List.mem_singleton.2 he))]

theorem Passed.cons {t u : Search} {frontier : List Nat} (h : Passed g [i] s t)
    (h' : Passed g frontier t u) (hi : i ∉ frontier) : Passed g (i :: frontier) s u := by
  have hfirst : g.claims s.waiting [i] = [t.children i] := h.children.symm
  have hclaims : g.claims s.waiting (i :: frontier) =
      t.children i :: g.claims t.waiting frontier := by
    rw [h.waiting, hfirst, List.flatten_singleton]
    rw [claims, (List.cons.inj hfirst).1]
  constructor
  case waiting =>
    rw [h'.waiting, hclaims, List.flatten_cons, ← without_without]
    rw [h.waiting, hfirst, List.flatten_singleton]
  case queue => rw [h'.queue, h.queue, hfirst, hclaims]; simp
  case roots => exact h'.roots.trans h.roots
  case children => rw [List.map_cons, h'.children, h'.others i hi, hclaims]
  case others =>
    intro k hk
    rw [List.mem_cons, not_or] at hk
    rw [h'.others k hk.2, h.others k (by simpa using hk.1)]

theorem passed_foldl_expand {frontier : List Nat} (hn : frontier.Nodup)
    (hb : ∀ i ∈ frontier, s.children i = []) :
    Passed g frontier s (frontier.foldl (expand g) s) := by
  induction frontier generalizing s with
  | nil => constructor <;> simp [claims, without]
  | cons i frontier ih =>
      obtain ⟨hi, hn⟩ := List.nodup_cons.1 hn
      obtain ⟨hbi, hb⟩ := List.forall_mem_cons.1 hb
      have hfirst : Passed g [i] s (expand g s i) := passed_expand hbi
      refine hfirst.cons (ih hn fun k hk => ?_) hi
      rw [hfirst.others k (by simpa using ne_of_mem_of_not_mem hk hi)]
      exact hb k hk

def prepend (front : List Nat) (s : Search) : Search := { s with queue := front ++ s.queue }

theorem expand_prepend (front : List Nat) (s : Search) (i : Nat) :
    expand g (prepend front s) i = prepend front (expand g s i) := by
  let left : Search := { s with order := s.order ++ [i] }
  change (g.successors i).foldl (meet i) (prepend front left) =
    prepend front ((g.successors i).foldl (meet i) left)
  refine List.foldl_hom (prepend front) fun t j => ?_
  rw [meet, meet, prepend]
  split <;> simp [prepend]

/-- A search may leave a whole frontier before it looks at what it has met on the way. -/
theorem drain_prepend (front : List Nat) (s : Search) :
    drain g (prepend front s) = drain g (front.foldl (expand g) s) := by
  induction front generalizing s with
  | nil => rfl
  | cons i front ih =>
      have hpop : drain g (prepend (i :: front) s) = drain g (expand g (prepend front s) i) :=
        drain_cons rfl
      rw [hpop, expand_prepend, ih, List.foldl_cons]

def level (g : Graph) (s : Search) : Search := s.queue.foldl (expand g) { s with queue := [] }

theorem drain_level (s : Search) : drain g s = drain g (level g s) := by
  rw [level, ← drain_prepend, prepend, List.append_nil]

structure Unwritten (s : Search) : Prop where
  nodup : (s.queue ++ s.waiting).Nodup
  bare : ∀ i ∈ s.queue ++ s.waiting, s.children i = []

theorem Sound.unwritten (h : s.Sound g) : s.Unwritten := by
  have hn := h.nodup
  rw [List.append_assoc] at hn
  obtain ⟨-, hn, hdisjoint⟩ := List.nodup_append'.1 hn
  exact ⟨hn, fun i hi => h.bare i fun hm => hdisjoint hm hi⟩

theorem Unwritten.passed_level (h : s.Unwritten) :
    Passed g s.queue { s with queue := [] } (level g s) :=
  passed_foldl_expand (List.nodup_append'.1 h.nodup).1 fun i hi =>
    h.bare i (List.mem_append_left _ hi)

theorem Unwritten.level (h : s.Unwritten) : (level g s).Unwritten := by
  have hpassed : Passed g s.queue { s with queue := [] } (Search.level g s) := h.passed_level
  obtain ⟨-, hw, hdisjoint⟩ := List.nodup_append'.1 h.nodup
  have hp : ((g.claims s.waiting s.queue).flatten ++
      without s.waiting (g.claims s.waiting s.queue).flatten).Perm s.waiting :=
    append_without_perm hw (nodup_flatten_claims s.queue hw) fun i => mem_of_mem_flatten_claims
  constructor
  case nodup =>
    rw [hpassed.queue, hpassed.waiting]
    exact hp.nodup_iff.2 hw
  case bare =>
    intro i hi
    rw [hpassed.queue, hpassed.waiting] at hi
    replace hi : i ∈ s.waiting := hp.mem_iff.1 hi
    rw [hpassed.others i fun hq => hdisjoint hq hi]
    exact h.bare i (List.mem_append_right _ hi)

/-- What becomes of a search as the forests below its queue grow. -/
structure Grown (g : Graph) (unmet frontier : List Nat) (s t : Search) : Prop where
  below : List.Forall₂ (Forest.IsBelow t.children) (g.grow unmet frontier) frontier
  waiting : t.waiting = without unmet ((g.grow unmet frontier).flatMap Forest.nodes)
  roots : t.roots = s.roots
  others : ∀ i, i ∉ frontier → i ∉ unmet → t.children i = s.children i

theorem grown_drain (s : Search) (h : s.Unwritten) {unmet frontier : List Nat}
    (hw : s.waiting = unmet) (hq : s.queue = frontier) :
    Grown g unmet frontier s (drain g s) := by
  -- One level of the forests is one frontier, and what comes later leaves its tables alone.
  rw [drain_level]
  fun_induction grow g unmet frontier generalizing s with
  | case1 unmet frontier claims next hnext =>
      subst hw hq
      have hpassed : Passed g s.queue { s with queue := [] } (level g s) := h.passed_level
      have hqueue : (level g s).queue = [] := hpassed.queue.trans hnext
      have hgrow : g.grow s.waiting s.queue = s.queue.map fun _ => Forest.nil := by
        rw [grow, dif_pos hnext]
      rw [drain_nil hqueue]
      constructor
      case below =>
        rw [hgrow, List.forall₂_map_left_iff, List.forall₂_same]
        intro i hi
        refine ⟨?_, trivial⟩
        have hm : (level g s).children i ∈ claims := by
          rw [show claims = _ from hpassed.children.symm]
          exact List.mem_map_of_mem hi
        exact (List.flatten_eq_nil_iff.1 hnext _ hm).symm
      case waiting =>
        rw [hpassed.waiting, hgrow]
        refine without_congr fun i => ?_
        rw [show (g.claims s.waiting s.queue).flatten = [] from hnext]
        simp [Forest.nodes]
      case roots => exact hpassed.roots
      case others => exact fun i hi _ => hpassed.others i hi
  | case2 unmet frontier claims next hnext below ih =>
      subst hw hq
      have hpassed : Passed g s.queue { s with queue := [] } (level g s) := h.passed_level
      have hgrown : Grown g (without s.waiting next) next (level g s) (drain g (level g s)) := by
        rw [drain_level]
        exact ih (level g s) h.level hpassed.waiting hpassed.queue
      have hgrow : g.grow s.waiting s.queue =
          List.zipWith Forest.ofChildren claims (runs claims below) := by
        rw [grow, dif_neg hnext]
      obtain ⟨-, hn, hdisjoint⟩ := List.nodup_append'.1 h.nodup
      have hmem {i : Nat} (hi : i ∈ next) : i ∈ s.waiting := mem_of_mem_flatten_claims hi
      have hkept {i : Nat} (hi : i ∉ s.waiting) :
          (drain g (level g s)).children i = (level g s).children i :=
        hgrown.others i (fun hm => hi (hmem hm)) fun hm => hi (mem_without.1 hm).1
      constructor
      case below =>
        have hclaims : claims = s.queue.map (drain g (level g s)).children := by
          rw [show claims = _ from hpassed.children.symm]
          exact List.map_congr_left fun i hi => (hkept (hdisjoint hi)).symm
        have hruns := isBelow_runs hgrown.below
        rw [hclaims, List.forall₂_map_right_iff, ← hclaims] at hruns
        rw [hgrow]
        exact hruns
      case waiting =>
        rw [hgrown.waiting, without_without, hgrow]
        exact without_congr fun i =>
          (nodes_ofChildren_runs_perm (length_grow (without s.waiting next) next)).symm.mem_iff
      case roots => exact hgrown.roots.trans hpassed.roots
      case others => exact fun i hi hw => (hkept hw).trans (hpassed.others i hi)

structure Spanned (trees : List Forest) (s t : Search) : Prop where
  follows : ∀ tree ∈ trees, tree.Follows t.children
  waiting : t.waiting = without s.waiting (trees.flatMap Forest.nodes)
  roots : t.roots = s.roots ++ trees.flatMap Forest.roots
  others : ∀ i ∉ s.waiting, t.children i = s.children i

theorem spanned_start (h : s.Sound g) (hq : s.queue = []) {seed : Nat} (hs : seed ∈ s.waiting) :
    Spanned [g.treeFrom s.waiting seed] s (start g s seed) := by
  have hgrown : Grown g (without s.waiting [seed]) [seed] (enter s seed)
      (drain g (enter s seed)) := grown_drain _ (h.enter hq hs).unwritten rfl rfl
  rw [start, if_pos (List.contains_iff_mem.2 hs)]
  constructor
  case follows =>
    obtain ⟨f, fs, hf, -, he⟩ := List.forall₂_cons_right_iff.1 hgrown.below
    rw [List.forall_mem_singleton, treeFrom, he]
    exact ⟨hf.1, hf.2, trivial⟩
  case waiting =>
    rw [hgrown.waiting, without_without, List.flatMap_singleton, nodes_treeFrom]
    rfl
  case roots => exact hgrown.roots
  case others =>
    intro i hi
    have hne : i ∉ [seed] := fun hm => hi (List.mem_singleton.1 hm ▸ hs)
    exact hgrown.others i hne fun hm => hi (mem_without.1 hm).1

theorem Spanned.append {trees more : List Forest} {t u : Search} (h : Spanned trees s t)
    (h' : Spanned more t u) : Spanned (trees ++ more) s u := by
  constructor
  case follows =>
    intro tree ht
    rcases List.mem_append.1 ht with ht | ht
    · refine (h.follows tree ht).congr fun i hi => (h'.others i fun hm => ?_).symm
      rw [h.waiting, mem_without] at hm
      exact hm.2 (List.mem_flatMap.2 ⟨tree, ht, hi⟩)
    · exact h'.follows tree ht
  case waiting => rw [h'.waiting, h.waiting, without_without, List.flatMap_append]
  case roots => rw [h'.roots, h.roots, List.flatMap_append, List.append_assoc]
  case others =>
    intro i hi
    have hm : i ∉ t.waiting := by
      rw [h.waiting, mem_without]
      exact fun hm => hi hm.1
    rw [h'.others i hm, h.others i hi]

theorem spanned_foldl_start (h : s.Sound g) (hq : s.queue = []) (seeds : List Nat) :
    Spanned (g.spanFrom s.waiting seeds) s (seeds.foldl (start g) s) := by
  induction seeds generalizing s with
  | nil =>
      constructor <;> simp [spanFrom, without]
  | cons seed seeds ih =>
      obtain ⟨hsound, hqueue⟩ := h.start hq seed
      have hrest := ih hsound hqueue
      rw [spanFrom, List.foldl_cons]
      by_cases hs : s.waiting.contains seed
      · have hfirst := spanned_start h hq (List.contains_iff_mem.1 hs)
        rw [hfirst.waiting, List.flatMap_singleton] at hrest
        rw [if_pos hs]
        exact hfirst.append hrest
      · rw [if_neg hs]
        rw [start, if_neg hs] at hrest ⊢
        exact hrest

/-- The trees of a graph are what a search from the same seeds writes into its tables. -/
theorem spanned_run (g : Graph) (seeds : List Nat) :
    Spanned (g.spanFrom g.nodes seeds) (blank g) (run g seeds) :=
  spanned_foldl_start (.blank g) rfl seeds

theorem waiting_run {seeds : List Nat} (hs : ∀ i ∈ g.nodes, i ∈ seeds) :
    (run g seeds).waiting = [] := by
  rw [(spanned_run g seeds).waiting, List.eq_nil_iff_forall_not_mem]
  intro i hi
  obtain ⟨hi, hn⟩ := mem_without.1 hi
  exact hn ((nodes_spanFrom_perm g.nodup_nodes hs).mem_iff.2 hi)

end Search

end Drafting
