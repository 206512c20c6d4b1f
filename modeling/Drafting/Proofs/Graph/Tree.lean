import Drafting.Proofs.Graph.Forest
import Drafting.Proofs.Page.Levels
import Mathlib.Data.List.Forall2

namespace Drafting

namespace Forest

def families : Forest → List (Nat × List Nat)
  | nil => []
  | cons i children siblings => (i, children.roots) :: (children.families ++ siblings.families)

def Follows (below : Nat → List Nat) : Forest → Prop
  | nil => True
  | cons i children siblings =>
      children.roots = below i ∧ children.Follows below ∧ siblings.Follows below

variable {below : Nat → List Nat} {f : Forest} {i j : Nat}

theorem Follows.families_eq (h : f.Follows below) :
    f.families = f.nodes.map fun i => (i, below i) := by
  induction f with
  | nil => rfl
  | cons i children siblings ihc ihs =>
      obtain ⟨hr, hc, hs⟩ := h
      rw [families, nodes, hr, ihc hc, ihs hs, List.map_cons, List.map_append]

theorem Follows.depths_eq {depth : Nat → Nat} (h : f.Follows below)
    (hd : ∀ i, ∀ j ∈ below i, depth j = depth i + 1) {k : Nat}
    (hk : ∀ i ∈ f.roots, depth i = k) : f.depths k = f.nodes.map fun i => (i, depth i) := by
  induction f generalizing k with
  | nil => rfl
  | cons i children siblings ihc ihs =>
      obtain ⟨hr, hc, hs⟩ := h
      obtain ⟨rfl, hk⟩ := List.forall_mem_cons.1 hk
      have hbelow : ∀ j ∈ children.roots, depth j = depth i + 1 := fun j hj => hd i j (hr ▸ hj)
      rw [depths, nodes, ihc hc hbelow, ihs hs hk, List.map_cons, List.map_append]

theorem Follows.congr {table : Nat → List Nat} (h : f.Follows below)
    (he : ∀ i ∈ f.nodes, below i = table i) : f.Follows table := by
  induction f with
  | nil => trivial
  | cons i children siblings ihc ihs =>
      obtain ⟨hr, hc, hs⟩ := h
      rw [nodes, List.forall_mem_cons, List.forall_mem_append] at he
      exact ⟨hr.trans he.1, ihc hc he.2.1, ihs hs he.2.2⟩

theorem mem_nodes_of_mem_roots (h : i ∈ f.roots) : i ∈ f.nodes := by
  induction f with
  | nil => cases h
  | cons r children siblings _ ihs =>
      rw [nodes, List.mem_cons, List.mem_append]
      exact (List.mem_cons.1 h).imp_right fun h => .inr (ihs h)

theorem Follows.mem_of_mem_below (h : f.Follows below) (hi : i ∈ f.nodes)
    (hj : j ∈ below i) : j ∈ f.nodes := by
  induction f with
  | nil => cases hi
  | cons r children siblings ihc ihs =>
      obtain ⟨hr, hc, hs⟩ := h
      rw [nodes, List.mem_cons, List.mem_append] at hi ⊢
      rcases hi with rfl | hi | hi
      · exact .inr (.inl (mem_nodes_of_mem_roots (hr ▸ hj)))
      · exact .inr (.inl (ihc hc hi))
      · exact .inr (.inr (ihs hs hi))

/-- All but the roots are children. -/
theorem Follows.exists_of_mem (h : f.Follows below) (hj : j ∈ f.nodes) (hr : j ∉ f.roots) :
    ∃ i ∈ f.nodes, j ∈ below i := by
  induction f with
  | nil => cases hj
  | cons r children siblings ihc ihs =>
      obtain ⟨hroots, hc, hs⟩ := h
      rw [roots, List.mem_cons, not_or] at hr
      rw [nodes, List.mem_cons, List.mem_append] at hj
      simp only [nodes, List.mem_cons, List.mem_append]
      rcases hj with rfl | hj | hj
      · exact absurd rfl hr.1
      · by_cases hjr : j ∈ children.roots
        · exact ⟨r, .inl rfl, hroots ▸ hjr⟩
        · obtain ⟨i, hi, hij⟩ := ihc hc hj hjr
          exact ⟨i, .inr (.inl hi), hij⟩
      · obtain ⟨i, hi, hij⟩ := ihs hs hj hr.2
        exact ⟨i, .inr (.inr hi), hij⟩

def IsBelow (below : Nat → List Nat) (f : Forest) (i : Nat) : Prop :=
  f.roots = below i ∧ f.Follows below

theorem follows_ofChildren {is : List Nat} {fs : List Forest}
    (h : List.Forall₂ (IsBelow below) fs is) :
    (ofChildren is fs).roots = is ∧ (ofChildren is fs).Follows below := by
  induction h with
  | nil => exact ⟨rfl, trivial⟩
  | cons hf _ ih => exact ⟨congrArg _ ih.1, hf.1, hf.2, ih.2⟩

end Forest

namespace Graph

open Forest

variable {g : Graph} {waiting frontier : List Nat} {i j : Nat}

/-- Arcs lead on to later nodes, and no two of them to the same. -/
structure IsForest (g : Graph) : Prop where
  inside : ∀ {i j}, j ∈ g.successors i → j < g.size
  forward : ∀ {i j}, j ∈ g.successors i → i < j
  single : ∀ {i i' j}, j ∈ g.successors i → j ∈ g.successors i' → i = i'
  nodup : ∀ i, (g.successors i).Nodup

theorem eraseDups_eq_self {l : List Nat} (h : l.Nodup) : l.eraseDups = l := by
  induction l with
  | nil => simp
  | cons x l ih =>
      obtain ⟨hx, hl⟩ := List.nodup_cons.1 h
      have hf : l.filter (fun y => !y == x) = l :=
        List.filter_eq_self.2 fun y hy => by simpa using ne_of_mem_of_not_mem hy hx
      rw [List.eraseDups_cons, hf, ih hl]

theorem IsForest.reached_eq (hg : g.IsForest) (h : ∀ j ∈ g.successors i, j ∈ waiting) :
    g.reached waiting [i] = g.successors i := by
  rw [reached, List.flatMap_singleton, List.filter_eq_self.2 (by simpa using h),
    eraseDups_eq_self (hg.nodup i)]

/-- A search that has yet to go where its arcs lead. -/
structure Open (g : Graph) (waiting frontier : List Nat) : Prop where
  nodup : frontier.Nodup
  disjoint : ∀ i ∈ frontier, i ∉ waiting
  frontier : ∀ i ∈ frontier, ∀ j ∈ g.successors i, j ∈ waiting
  waiting : ∀ i ∈ waiting, ∀ j ∈ g.successors i, j ∈ waiting

theorem IsForest.claims_eq (hg : g.IsForest) (hn : frontier.Nodup)
    (h : ∀ i ∈ frontier, ∀ j ∈ g.successors i, j ∈ waiting) :
    g.claims waiting frontier = frontier.map g.successors := by
  induction frontier generalizing waiting with
  | nil => rfl
  | cons i frontier ih =>
      obtain ⟨hi, hn⟩ := List.nodup_cons.1 hn
      obtain ⟨h, hrest⟩ := List.forall_mem_cons.1 h
      rw [claims, hg.reached_eq h, List.map_cons, ih hn]
      intro i' hi' j hj
      refine mem_without.2 ⟨hrest i' hi' j hj, fun hj' => hi ?_⟩
      rwa [hg.single hj' hj]

theorem Open.next (hg : g.IsForest) (h : Open g waiting frontier) :
    Open g (without waiting (frontier.flatMap g.successors)) (frontier.flatMap g.successors) where
  nodup := by
    refine List.nodup_flatMap.2 ⟨fun i _ => hg.nodup i, h.nodup.imp ?_⟩
    exact fun hne j hj hj' => hne (hg.single hj hj')
  disjoint i hi hw := (mem_without.1 hw).2 hi
  frontier i hi j hj := by
    obtain ⟨i', hi', hi⟩ := List.mem_flatMap.1 hi
    have hw := h.frontier i' hi' i hi
    refine mem_without.2 ⟨h.waiting i hw j hj, fun hj' => ?_⟩
    obtain ⟨k, hk, hjk⟩ := List.mem_flatMap.1 hj'
    exact h.disjoint k hk (hg.single hj hjk ▸ hw)
  waiting i hi j hj := by
    obtain ⟨hw, hi⟩ := mem_without.1 hi
    refine mem_without.2 ⟨h.waiting i hw j hj, fun hj' => ?_⟩
    obtain ⟨k, hk, hjk⟩ := List.mem_flatMap.1 hj'
    exact h.disjoint k hk (hg.single hj hjk ▸ hw)

theorem isBelow_runs {below : Nat → List Nat} {cs : List (List Nat)} {fs : List Forest}
    (h : List.Forall₂ (IsBelow below) fs cs.flatten) :
    List.Forall₂ (fun f c => f.roots = c ∧ f.Follows below)
      (List.zipWith ofChildren cs (runs cs fs)) cs := by
  induction cs generalizing fs with
  | nil => exact .nil
  | cons c cs ih =>
      rw [List.flatten_cons] at h
      exact .cons (follows_ofChildren (List.forall₂_take_append _ _ _ h))
        (ih (List.forall₂_drop_append _ _ _ h))

/-- Below each node of the frontier a search grows all that its arcs lead to. -/
theorem IsForest.isBelow_grow (hg : g.IsForest) (h : Open g waiting frontier) :
    List.Forall₂ (IsBelow g.successors) (g.grow waiting frontier) frontier := by
  fun_induction grow g waiting frontier with
  | case1 waiting frontier claims next hn =>
      have hnone : ∀ i ∈ frontier, g.successors i = [] := by
        have hc : claims = frontier.map g.successors := hg.claims_eq h.nodup h.frontier
        have hf : claims.flatten = [] := hn
        rwa [hc, ← List.flatMap_def, List.flatMap_eq_nil_iff] at hf
      rw [List.forall₂_map_left_iff, List.forall₂_same]
      exact fun i hi => ⟨(hnone i hi).symm, trivial⟩
  | case2 waiting frontier claims next hn below ih =>
      have hc : g.claims waiting frontier = frontier.map g.successors :=
        hg.claims_eq h.nodup h.frontier
      have hnext : next = frontier.flatMap g.successors := by
        rw [List.flatMap_def, ← hc]
      have hruns : List.Forall₂ (fun f c => f.roots = c ∧ f.Follows g.successors)
          (List.zipWith ofChildren claims (runs claims below)) claims :=
        isBelow_runs (ih (hnext ▸ h.next hg))
      rw [show claims = frontier.map g.successors from hc, List.forall₂_map_right_iff] at hruns
      rwa [← hc] at hruns

theorem IsForest.treeFrom_follows (hg : g.IsForest) {seed : Nat}
    (h : ∀ i ∈ waiting, ∀ j ∈ g.successors i, j ∈ waiting) (hs : seed ∈ waiting)
    (hi : g.isInitial seed) :
    (g.treeFrom waiting seed).roots = [seed] ∧ (g.treeFrom waiting seed).Follows g.successors := by
  have hopen : Open g (without waiting [seed]) [seed] := by
    constructor
    case nodup => exact List.nodup_singleton seed
    case disjoint => simp [mem_without]
    case frontier =>
      intro i hm j hj
      rw [List.mem_singleton] at hm
      subst hm
      exact mem_without.2 ⟨h i hs j hj, by simpa using (hg.forward hj).ne'⟩
    case waiting =>
      intro i hm j hj
      refine mem_without.2 ⟨h i (mem_without.1 hm).1 j hj, ?_⟩
      rw [List.mem_singleton]
      rintro rfl
      exact isInitial_iff.1 hi i hj
  have hgrow := hg.isBelow_grow hopen
  rw [treeFrom]
  obtain ⟨f, fs, hf, hnil, he⟩ := List.forall₂_cons_right_iff.1 hgrow
  rw [he]
  exact ⟨rfl, hf.1, hf.2, trivial⟩

structure IsWhole (g : Graph) (waiting : List Nat) : Prop where
  down : ∀ i ∈ waiting, ∀ j ∈ g.successors i, j ∈ waiting
  up : ∀ {i j}, j ∈ waiting → j ∈ g.successors i → i ∈ waiting

theorem IsForest.isWhole_nodes (hg : g.IsForest) : IsWhole g g.nodes where
  down _ _ _ hj := List.mem_range.2 (hg.inside hj)
  up hj hs := List.mem_range.2 ((hg.forward hs).trans (List.mem_range.1 hj))

theorem IsWhole.without (hw : IsWhole g waiting) (hg : g.IsForest) {tree : Forest}
    (hi : ∀ i ∈ tree.roots, g.isInitial i) (ht : tree.Follows g.successors) :
    IsWhole g (without waiting tree.nodes) where
  down i hm j hj := by
    obtain ⟨hm, hn⟩ := mem_without.1 hm
    refine mem_without.2 ⟨hw.down i hm j hj, fun hjt => ?_⟩
    obtain ⟨i', hi', hj'⟩ := ht.exists_of_mem hjt fun hr => isInitial_iff.1 (hi j hr) i hj
    exact hn (hg.single hj hj' ▸ hi')
  up hm hj := by
    obtain ⟨hm, hn⟩ := mem_without.1 hm
    exact mem_without.2 ⟨hw.up hm hj, fun hi => hn (ht.mem_of_mem_below hi hj)⟩

/-- The way up from a node ends at one that nothing leads to. -/
theorem IsWhole.eq_nil (hw : IsWhole g waiting) (hg : g.IsForest)
    (h : ∀ i ∈ waiting, ¬ g.isInitial i) : waiting = [] := by
  refine List.eq_nil_iff_forall_not_mem.2 fun j => ?_
  induction j using Nat.strong_induction_on with
  | _ j ih =>
      intro hj
      obtain ⟨i, hi⟩ := not_forall_not.1 (mt isInitial_iff.2 (h j hj))
      exact ih i (hg.forward hi) (hw.up hj hi)

theorem spanFrom_nil (g : Graph) (seeds : List Nat) : g.spanFrom [] seeds = [] := by
  induction seeds with
  | nil => rfl
  | cons seed seeds ih => rw [spanFrom, if_neg (by simp), ih]

/-- Searches from all nodes that nothing leads to leave nothing for others, and their trees have all
arcs. -/
theorem IsForest.spanFrom_follows (hg : g.IsForest) {seeds : List Nat} (hw : IsWhole g waiting)
    (hn : seeds.Nodup) (hs : ∀ i, i ∈ seeds ↔ i ∈ waiting ∧ g.isInitial i) (rest : List Nat) :
    (g.spanFrom waiting (seeds ++ rest)).flatMap Forest.roots = seeds ∧
      ∀ tree ∈ g.spanFrom waiting (seeds ++ rest), tree.Follows g.successors := by
  induction seeds generalizing waiting with
  | nil =>
      obtain rfl : waiting = [] := hw.eq_nil hg fun i hm hi => by simpa using (hs i).2 ⟨hm, hi⟩
      simp [spanFrom_nil]
  | cons seed seeds ih =>
      obtain ⟨hm, hi⟩ := (hs seed).1 List.mem_cons_self
      obtain ⟨hne, hn⟩ := List.nodup_cons.1 hn
      obtain ⟨hr, ht⟩ := hg.treeFrom_follows hw.down hm hi
      have hinitial : ∀ i ∈ (g.treeFrom waiting seed).roots, g.isInitial i := by simpa [hr] using hi
      have hrest : ∀ i, i ∈ seeds ↔
          i ∈ without waiting (g.treeFrom waiting seed).nodes ∧ g.isInitial i := by
        intro i
        rw [mem_without]
        constructor
        · intro h
          obtain ⟨hm, hi⟩ := (hs i).1 (List.mem_cons_of_mem _ h)
          refine ⟨⟨hm, fun hin => ?_⟩, hi⟩
          obtain ⟨p, -, hp⟩ := ht.exists_of_mem hin (by
            rw [hr, List.mem_singleton]
            exact ne_of_mem_of_not_mem h hne)
          exact isInitial_iff.1 hi p hp
        · rintro ⟨⟨hm, hin⟩, hi⟩
          refine (List.mem_cons.1 ((hs i).2 ⟨hm, hi⟩)).resolve_left ?_
          rintro rfl
          exact hin (mem_nodes_of_mem_roots (by simp [hr]))
      obtain ⟨hroots, hall⟩ := ih (hw.without hg hinitial ht) hn hrest
      rw [List.cons_append, spanFrom, if_pos (by simpa using hm)]
      dsimp only
      rw [List.flatMap_cons, hroots, hr]
      exact ⟨rfl, List.forall_mem_cons.2 ⟨ht, hall⟩⟩

def span (g : Graph) : List Forest := g.spanFrom g.nodes (g.nodes.filter g.isInitial ++ g.nodes)

theorem IsForest.span_follows (hg : g.IsForest) :
    g.span.flatMap Forest.roots = g.nodes.filter g.isInitial ∧
      ∀ tree ∈ g.span, tree.Follows g.successors :=
  hg.spanFrom_follows hg.isWhole_nodes (g.nodup_nodes.filter _) (fun _ => List.mem_filter) g.nodes

theorem nodes_span_perm (g : Graph) : (g.span.flatMap Forest.nodes).Perm g.nodes :=
  nodes_spanFrom_perm g.nodup_nodes fun _ => List.mem_append_right _

theorem IsForest.families_span_perm (hg : g.IsForest) :
    (g.span.flatMap Forest.families).Perm (g.nodes.map fun i => (i, g.successors i)) := by
  have he : g.span.flatMap Forest.families =
      (g.span.flatMap Forest.nodes).map fun i => (i, g.successors i) := by
    rw [List.map_flatMap]
    exact List.flatMap_congr fun tree ht => (hg.span_follows.2 tree ht).families_eq
  exact he ▸ (nodes_span_perm g).map _

theorem IsForest.depths_span_perm (hg : g.IsForest) {depth : Nat → Nat}
    (h0 : ∀ i < g.size, g.isInitial i → depth i = 0)
    (hstep : ∀ i, ∀ j ∈ g.successors i, depth j = depth i + 1) :
    (g.span.flatMap (Forest.depths 0)).Perm (g.nodes.map fun i => (i, depth i)) := by
  have hroots : ∀ tree ∈ g.span, ∀ i ∈ tree.roots, depth i = 0 := by
    intro tree ht i hi
    have hm : i ∈ g.nodes.filter g.isInitial :=
      hg.span_follows.1 ▸ List.mem_flatMap.2 ⟨tree, ht, hi⟩
    obtain ⟨hm, hi⟩ := List.mem_filter.1 hm
    exact h0 i (List.mem_range.1 hm) hi
  have he : g.span.flatMap (Forest.depths 0) =
      (g.span.flatMap Forest.nodes).map fun i => (i, depth i) := by
    rw [List.map_flatMap]
    exact List.flatMap_congr fun tree ht =>
      (hg.span_follows.2 tree ht).depths_eq hstep (hroots tree ht)
  exact he ▸ (nodes_span_perm g).map _

/-- One comes to a node along one way only, as long as it is deep. -/
theorem IsForest.isDistance_iff (hg : g.IsForest) {seeds : List Nat} {depth : Nat → Nat}
    (hs : ∀ i < g.size, i ∈ seeds ↔ g.isInitial i) (h0 : ∀ i ∈ seeds, depth i = 0)
    (hstep : ∀ i, ∀ j ∈ g.successors i, depth j = depth i + 1) (hi : i < g.size) {n : Nat} :
    g.IsDistance seeds i n ↔ depth i = n := by
  have hlength {m i : Nat} (w : g.Walk seeds m i) : depth i = m := by
    induction w with
    | start h => exact h0 _ h
    | step _ hj ih => rw [hstep _ _ hj, ih]
  have hwalk : g.Walk seeds (depth i) i := by
    induction i using Nat.strong_induction_on with
    | _ j ih =>
        by_cases hj : g.isInitial j
        · have hm := (hs j hi).2 hj
          exact h0 j hm ▸ .start hm
        · obtain ⟨p, hp⟩ := not_forall_not.1 (mt isInitial_iff.2 hj)
          have hlt := hg.forward hp
          exact hstep p j hp ▸ (ih p hlt (hlt.trans hi)).step hp
  constructor
  · exact fun h => hlength h.1
  · rintro rfl
    exact ⟨hwalk, fun m hm => (hlength hm).le⟩

end Graph

namespace Page

open Drafting.Graph

theorem levels_eq {g : Graph} (hg : g.IsForest) {isRoot : Nat → Bool} {depth : Nat → Nat}
    (hr : ∀ i < g.size, isRoot i ↔ g.isInitial i) (h0 : ∀ i < g.size, g.isInitial i → depth i = 0)
    (hstep : ∀ i, ∀ j ∈ g.successors i, depth j = depth i + 1) :
    (∀ k, (levels g isRoot).getD k [] = g.nodes.filter fun i => depth i = k) ∧
      ∀ level ∈ levels g isRoot, level ≠ [] := by
  have hin : ∀ {i j}, j ∈ g.successors i → i < g.size := fun h =>
    (hg.forward h).trans (hg.inside h)
  have hmem {i : Nat} : i ∈ g.nodes.filter isRoot ↔ i ∈ g.nodes ∧ isRoot i := List.mem_filter
  have hseeds : ∀ i < g.size, i ∈ g.nodes.filter isRoot ↔ g.isInitial i := fun i hi => by
    rw [hmem, hr i hi, Graph.nodes, List.mem_range, and_iff_right hi]
  have hroots : ∀ i ∈ g.nodes.filter isRoot, depth i = 0 := fun i hi => by
    have hlt := List.mem_range.1 (hmem.1 hi).1
    exact h0 i hlt ((hseeds i hlt).1 hi)
  have hdepth {i : Nat} (hi : i ∈ g.nodes) {k : Nat} :
      g.IsDistance (g.nodes.filter isRoot) i k ↔ depth i = k :=
    hg.isDistance_iff hseeds hroots hstep (List.mem_range.1 hi)
  have hunreached : unreached g isRoot = [] := by
    refine List.eq_nil_iff_forall_not_mem.2 fun i hi => ?_
    obtain ⟨hi, hn⟩ := (mem_unreached hin).1 hi
    exact hn ((hdepth hi).2 rfl).reaches
  have hlevels : levels g isRoot = reachedLevels g isRoot := by
    rw [levels_eq_append, hunreached]
    exact List.append_nil _
  rw [hlevels]
  constructor
  · intro k
    have hholds (i : Nat) : HoldsAt (g.waves (without g.nodes (g.nodes.filter isRoot))
        (g.nodes.filter isRoot)) k i ↔
          i ∈ g.nodes ∧ g.IsDistance (g.nodes.filter isRoot) i k := holdsAt_waves_roots hin
    rw [reachedLevels, List.getD_eq_getElem?_getD, List.getElem?_map]
    cases hk : (g.waves (without g.nodes (g.nodes.filter isRoot)) (g.nodes.filter isRoot))[k]? with
    | none =>
        refine (List.filter_eq_nil_iff.2 fun i hi hd => ?_).symm
        obtain ⟨group, hg, -⟩ := (hholds i).2 ⟨hi, (hdepth hi).2 (by simpa using hd)⟩
        simp [hk] at hg
    | some wave =>
        refine List.filter_congr fun i hi => ?_
        have h := (hholds i).trans (and_congr_right fun hi => hdepth hi)
        simp only [HoldsAt, hk, Option.some_inj, exists_eq_left'] at h
        simp [h, hi]
  · exact fun level => ne_nil_of_mem_reachedLevels hin

end Page

end Drafting
