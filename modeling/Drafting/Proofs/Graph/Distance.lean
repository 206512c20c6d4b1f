import Drafting.Proofs.Graph.Waves
import Drafting.Proofs.Joint
import Mathlib.Order.Bounds.Basic
import Mathlib.Order.Nat

namespace Drafting

def HoldsAt (groups : List (List Nat)) (k i : Nat) : Prop :=
  ∃ group, groups[k]? = some group ∧ i ∈ group

section

variable {group : List Nat} {groups : List (List Nat)} {k i : Nat}

@[simp] theorem holdsAt_nil : ¬ HoldsAt [] k i := by
  simp [HoldsAt]

@[simp] theorem holdsAt_cons_zero : HoldsAt (group :: groups) 0 i ↔ i ∈ group := by
  simp [HoldsAt]

@[simp] theorem holdsAt_cons_succ : HoldsAt (group :: groups) (k + 1) i ↔ HoldsAt groups k i := by
  simp [HoldsAt]

theorem mem_flatten_iff_holdsAt : i ∈ groups.flatten ↔ ∃ k, HoldsAt groups k i := by
  rw [List.mem_flatten]
  constructor
  · rintro ⟨group, hg, hi⟩
    obtain ⟨k, hk⟩ := List.mem_iff_getElem?.1 hg
    exact ⟨k, group, hk, hi⟩
  · rintro ⟨k, group, hk, hi⟩
    exact ⟨group, List.mem_of_getElem? hk, hi⟩

end

namespace Graph

variable {g : Graph} {seeds : List Nat}

theorem isInitial_iff {j : Nat} : g.isInitial j ↔ ∀ i, j ∉ g.successors i := by
  rw [isInitial, List.all_eq_true]
  constructor
  · intro h i hj
    obtain ⟨a, ha, he⟩ := List.mem_filterMap.1 hj
    rw [Option.ite_none_right_eq_some, Option.some_inj] at he
    simpa [he.2] using h a ha
  · intro h a ha
    rw [bne_iff_ne]
    rintro rfl
    exact h a.1 (List.mem_filterMap.2 ⟨a, ha, if_pos rfl⟩)

inductive Walk (g : Graph) (seeds : List Nat) : Nat → Nat → Prop
  | start {i : Nat} (h : i ∈ seeds) : Walk g seeds 0 i
  | step {n i j : Nat} (w : Walk g seeds n i) (h : j ∈ g.successors i) : Walk g seeds (n + 1) j

def Reaches (g : Graph) (seeds : List Nat) (i : Nat) : Prop := ∃ n, g.Walk seeds n i

def IsDistance (g : Graph) (seeds : List Nat) (i n : Nat) : Prop := IsLeast {m | g.Walk seeds m i} n

theorem Reaches.exists_isDistance {i : Nat} (h : g.Reaches seeds i) :
    ∃ n, g.IsDistance seeds i n := by
  classical
  exact ⟨Nat.find h, Nat.find_spec h, fun _ hm => Nat.find_min' h hm⟩

theorem IsDistance.reaches {i n : Nat} (h : g.IsDistance seeds i n) : g.Reaches seeds i := ⟨n, h.1⟩

theorem reaches_of_mem {i : Nat} (h : i ∈ seeds) : g.Reaches seeds i := ⟨0, .start h⟩

theorem Reaches.step {i j : Nat} (h : g.Reaches seeds i) (hj : j ∈ g.successors i) :
    g.Reaches seeds j := by
  obtain ⟨n, w⟩ := h
  exact ⟨n + 1, w.step hj⟩

theorem Reaches.trans {i j : Nat} (h : g.Reaches seeds i) (hj : g.Reaches [i] j) :
    g.Reaches seeds j := by
  obtain ⟨n, w⟩ := hj
  induction w with
  | start hi => exact List.mem_singleton.1 hi ▸ h
  | step _ hs ih => exact ih.step hs

theorem Reaches.closed {p : Nat → Prop} (hp : ∀ i, p i → ∀ j ∈ g.successors i, p j)
    (hs : ∀ s ∈ seeds, p s) {i : Nat} (h : g.Reaches seeds i) : p i := by
  obtain ⟨n, w⟩ := h
  induction w with
  | start hi => exact hs _ hi
  | step _ hj ih => exact hp _ ih _ hj

theorem Walk.of_subset {seeds' : List Nat} {n i : Nat} (w : g.Walk seeds n i)
    (h : ∀ s ∈ seeds, s ∈ seeds') : g.Walk seeds' n i := by
  induction w with
  | start hi => exact .start (h _ hi)
  | step _ hj ih => exact ih.step hj

def Closed (g : Graph) (part : Nat → Prop) : Prop := ∀ i j, j ∈ g.successors i → part j → part i

/-- One comes back from a closed part only to seeds that lie in it. -/
theorem Walk.filter {p : Nat → Bool} (hp : g.Closed (p ·)) {n i : Nat}
    (w : g.Walk seeds n i) (hi : p i) : g.Walk (seeds.filter p) n i := by
  induction w with
  | start hs => exact .start (List.mem_filter.2 ⟨hs, hi⟩)
  | step _ hj ih => exact (ih (hp _ _ hj hi)).step hj

theorem isDistance_zero {i : Nat} : g.IsDistance seeds i 0 ↔ i ∈ seeds := by
  constructor
  · rintro ⟨w, _⟩
    cases w with
    | start h => exact h
  · intro h
    exact ⟨.start h, fun _ _ => Nat.zero_le _⟩

theorem IsDistance.pred {i n : Nat} (h : g.IsDistance seeds i (n + 1)) :
    ∃ j, g.IsDistance seeds j n ∧ i ∈ g.successors j := by
  obtain ⟨w, hleast⟩ := h
  cases w with
  | @step _ j _ w hi =>
      refine ⟨j, ⟨w, fun m hm => ?_⟩, hi⟩
      have hle := hleast (Walk.step hm hi)
      omega

theorem IsDistance.succ {i j n : Nat} (h : g.IsDistance seeds i n) (hj : j ∈ g.successors i)
    (hfar : ∀ m ≤ n, ¬ g.IsDistance seeds j m) : g.IsDistance seeds j (n + 1) := by
  refine ⟨Walk.step h.1 hj, fun m hm => ?_⟩
  obtain ⟨k, hk⟩ := Reaches.exists_isDistance ⟨m, hm⟩
  have hkm := hk.2 hm
  by_contra hlt
  exact hfar k (by omega) hk

/-- A search that has come `k` arcs far through a part of the graph: it stands on what lies at that
distance, and what lies further still waits. -/
structure Front (g : Graph) (seeds : List Nat) (part : Nat → Prop) (k : Nat)
    (waiting frontier : List Nat) : Prop where
  mem_frontier : ∀ i, i ∈ frontier ↔ part i ∧ g.IsDistance seeds i k
  mem_waiting : ∀ i, i ∈ waiting ↔ part i ∧ ∀ m ≤ k, ¬ g.IsDistance seeds i m

variable {part : Nat → Prop} {k : Nat} {waiting frontier : List Nat}

theorem mem_reached {i : Nat} :
    i ∈ g.reached waiting frontier ↔ i ∈ waiting ∧ ∃ j ∈ frontier, i ∈ g.successors j := by
  simp only [reached, List.mem_eraseDups, List.mem_filter, List.mem_flatMap, List.contains_iff_mem]
  exact and_comm

theorem Front.start (h : ∀ i ∈ seeds, i ∈ waiting) :
    Front g seeds (· ∈ waiting) 0 (without waiting seeds) seeds := by
  constructor
  · intro i
    rw [isDistance_zero]
    exact ⟨fun hi => ⟨h i hi, hi⟩, And.right⟩
  · intro i
    rw [mem_without]
    apply and_congr_right
    intro _
    constructor
    · intro hi m hm hd
      rw [Nat.le_zero.1 hm, isDistance_zero] at hd
      exact hi hd
    · intro hfar hi
      exact hfar 0 le_rfl (isDistance_zero.2 hi)

theorem Front.next (h : Front g seeds part k waiting frontier)
    (hpart : g.Closed part) :
    Front g seeds part (k + 1) (without waiting (g.reached waiting frontier))
      (g.reached waiting frontier) := by
  have hnext (i : Nat) :
      i ∈ g.reached waiting frontier ↔ part i ∧ g.IsDistance seeds i (k + 1) := by
    rw [mem_reached, h.mem_waiting]
    constructor
    · rintro ⟨⟨hi, hfar⟩, j, hj, hs⟩
      exact ⟨hi, ((h.mem_frontier j).1 hj).2.succ hs hfar⟩
    · rintro ⟨hi, hd⟩
      obtain ⟨j, hj, hs⟩ := hd.pred
      refine ⟨⟨hi, fun m hm hm' => ?_⟩, j, (h.mem_frontier j).2 ⟨hpart _ _ hs hi, hj⟩, hs⟩
      have he := hm'.unique hd
      omega
  refine ⟨hnext, fun i => ?_⟩
  rw [mem_without, h.mem_waiting, hnext]
  constructor
  · rintro ⟨⟨hi, hfar⟩, hn⟩
    refine ⟨hi, fun m hm hd => ?_⟩
    rcases Nat.le_succ_iff.1 hm with hle | rfl
    · exact hfar m hle hd
    · exact hn ⟨hi, hd⟩
  · rintro ⟨hi, hfar⟩
    exact ⟨⟨hi, fun m hm => hfar m (by omega)⟩, fun hn => hfar (k + 1) le_rfl hn.2⟩

/-- Beyond an empty sphere there is nothing. -/
theorem Front.not_isDistance (h : Front g seeds part k waiting [])
    (hpart : g.Closed part) (n : Nat) {i : Nat} (hi : part i) :
    ¬ g.IsDistance seeds i (k + n) := by
  induction n generalizing i with
  | zero => exact fun hd => List.not_mem_nil ((h.mem_frontier i).2 ⟨hi, hd⟩)
  | succ n ih =>
      intro hd
      obtain ⟨j, hj, hs⟩ := IsDistance.pred hd
      exact ih (hpart j i hs hi) hj

variable (k) in
/-- The waves of a search are spheres. -/
theorem Front.holdsAt_waves (h : Front g seeds part k waiting frontier)
    (hpart : g.Closed part) (n i : Nat) :
    HoldsAt (g.waves waiting frontier) n i ↔ part i ∧ g.IsDistance seeds i (k + n) := by
  -- The invariant moves one arc on with each wave, and an empty wave bounds all distances.
  fun_induction waves g waiting frontier generalizing k n with
  | case1 waiting frontier next hn he =>
      rw [List.isEmpty_iff] at he
      subst he
      simpa using h.not_isDistance hpart n
  | case2 waiting frontier next hn he =>
      cases n with
      | zero => simpa using h.mem_frontier i
      | succ n =>
          have hnext := h.next hpart
          rw [show g.reached waiting frontier = [] from hn] at hnext
          rw [holdsAt_cons_succ, iff_false_left holdsAt_nil]
          rintro ⟨hi, hd⟩
          exact hnext.not_isDistance hpart n hi (by rwa [Nat.add_assoc, Nat.add_comm 1])
  | case3 waiting frontier next hn ih =>
      cases n with
      | zero => simpa using h.mem_frontier i
      | succ n => rw [holdsAt_cons_succ, ih (k + 1) (h.next hpart) n, Nat.add_assoc, Nat.add_comm 1]

/-- A search through what waits, from the seeds that do. -/
theorem holdsAt_waves (hpart : g.Closed (· ∈ waiting)) (n i : Nat) :
    HoldsAt (g.waves (without waiting (seeds.filter waiting.contains))
        (seeds.filter waiting.contains)) n i ↔ i ∈ waiting ∧ g.IsDistance seeds i n := by
  have hclosed : g.Closed (waiting.contains ·) := by simpa using hpart
  have hwalk {m i : Nat} (hi : i ∈ waiting) :
      g.Walk (seeds.filter waiting.contains) m i ↔ g.Walk seeds m i :=
    ⟨fun w => w.of_subset fun _ hs => List.mem_of_mem_filter hs,
      fun w => w.filter hclosed (by simpa using hi)⟩
  have hdist {i : Nat} (n : Nat) (hi : i ∈ waiting) :
      g.IsDistance (seeds.filter waiting.contains) i n ↔ g.IsDistance seeds i n := by
    simp only [IsDistance, hwalk hi]
  have hfront : Front g (seeds.filter waiting.contains) (· ∈ waiting) 0
      (without waiting (seeds.filter waiting.contains)) (seeds.filter waiting.contains) :=
    .start fun i hi => by simpa using (List.mem_filter.1 hi).2
  rw [hfront.holdsAt_waves 0 hpart, Nat.zero_add]
  exact and_congr_right (hdist n)

theorem mem_flatten_waves (hpart : g.Closed (· ∈ waiting)) {i : Nat} :
    i ∈ (g.waves (without waiting (seeds.filter waiting.contains))
        (seeds.filter waiting.contains)).flatten ↔ i ∈ waiting ∧ g.Reaches seeds i := by
  simp only [mem_flatten_iff_holdsAt, holdsAt_waves hpart, exists_and_left]
  exact and_congr_right fun _ =>
    ⟨fun ⟨n, hn⟩ => hn.reaches, fun h => h.exists_isDistance⟩

theorem waves_ne_nil {wave : List Nat} (h : wave ∈ g.waves waiting frontier) : wave ≠ [] := by
  fun_induction waves g waiting frontier with
  | case1 => cases h
  | case2 waiting frontier next hn he =>
      rw [List.mem_singleton.1 h]
      simpa using he
  | case3 waiting frontier next hn ih =>
      rcases List.mem_cons.1 h with rfl | h
      · rintro rfl
        exact hn rfl
      · exact ih h

end Graph

/-- An arc is an edge between two different nodes. -/
theorem Diagram.mem_successors_graph {α : Type} {d : Diagram α} {i j : Nat} :
    j ∈ d.graph.successors i ↔ i ≠ j ∧ ∃ e ∈ d.edges,
      (d.locate? e.source).map Endpoint.index = some i ∧
        (d.locate? e.target).map Endpoint.index = some j := by
  have harc : j ∈ d.graph.successors i ↔ (i, j) ∈ d.joints ∧ i ≠ j := by
    simp [graph_eq, Graph.successors]
  have hjoint (e : Edge) : joint? d.ids e = some (i, j) ↔
      position? d.ids e.source = some i ∧ position? d.ids e.target = some j := by
    rw [joint?]
    cases position? d.ids e.source <;> cases position? d.ids e.target <;> simp
  rw [harc, and_comm, joints_eq, List.mem_filterMap]
  simp only [hjoint, index_locate?]

theorem Diagram.lt_of_index_locate? {α : Type} {d : Diagram α} {id : String} {i : Nat}
    (h : (d.locate? id).map Endpoint.index = some i) : i < d.nodes.length := by
  obtain ⟨p, hp, rfl⟩ := Option.map_eq_some_iff.1 h
  exact (List.getElem?_eq_some_iff.1 (getElem?_of_locate? hp).1).1

theorem Diagram.lt_of_mem_successors_graph {α : Type} {d : Diagram α} {i j : Nat}
    (h : j ∈ d.graph.successors i) : i < d.nodes.length ∧ j < d.nodes.length := by
  obtain ⟨_, e, _, hs, ht⟩ := mem_successors_graph.1 h
  exact ⟨lt_of_index_locate? hs, lt_of_index_locate? ht⟩

theorem Diagram.closed_nodes {α : Type} (d : Diagram α) : d.graph.Closed (· ∈ d.graph.nodes) :=
  fun _ _ h _ => List.mem_range.2 (lt_of_mem_successors_graph h).1

end Drafting
