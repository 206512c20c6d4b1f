import Drafting.Proofs.Layout.Queue
import Drafting.Proofs.Page.Bands
import Drafting.Proofs.Page.Limits

namespace Drafting.Page

variable {K : Type} [Field K] [LinearOrder K] [FloorSemiring K] {t : K}

section

variable {ι κ : Type} {value : ι → K} {runs : List (List ι)}

theorem MaximalRuns.congr {other : ι → K} (hr : MaximalRuns t value runs)
    (h : ∀ i ∈ runs.flatten, value i = other i) : MaximalRuns t other runs := by
  induction runs with
  | nil => exact maximalRuns_nil
  | cons run runs ih =>
      rw [List.flatten_cons, List.forall_mem_append] at h
      obtain ⟨i, behind, rfl⟩ := List.exists_cons_of_ne_nil (hr.ne_nil run List.mem_cons_self)
      obtain ⟨hnear, hfar, hrest⟩ := maximalRuns_cons.1 hr
      have hi := h.1 i List.mem_cons_self
      refine maximalRuns_cons.2 ⟨fun j hj => ?_, fun next hn j hj => ?_, ih hrest h.2⟩
      · rw [← hi, ← h.1 j hj]
        exact hnear j hj
      · have hm := List.mem_flatten.2 ⟨next, List.mem_of_mem_head? hn, List.mem_of_mem_head? hj⟩
        rw [← hi, ← h.2 j hm]
        exact hfar next hn j hj

theorem maximalRuns_map {f : κ → ι} {runs : List (List κ)} :
    MaximalRuns t value (runs.map (List.map f)) ↔ MaximalRuns t (fun k => value (f k)) runs := by
  constructor
  · rintro ⟨hne, hnear, hfar⟩
    exact ⟨by simpa using hne, by simpa using hnear, by simpa [List.isChain_map] using hfar⟩
  · rintro ⟨hne, hnear, hfar⟩
    exact ⟨by simpa using hne, by simpa using hnear, by simpa [List.isChain_map] using hfar⟩

end

section

variable {p : Nat × Rect K} {behind : List (Nat × Rect K)}

/-- The open band and what follows it are cut into maximal runs. -/
theorem exists_runs_bandsFrom (ht : 0 ≤ t) (h : ∀ q ∈ p :: behind, q.2.y - p.2.y ≤ t)
    (rest : List (Nat × Rect K)) :
    ∃ run runs, MaximalRuns t (fun q : Nat × Rect K => q.2.y) ((p :: (behind ++ run)) :: runs) ∧
      run ++ runs.flatten = rest ∧ bandsFrom t ((p :: behind).map Prod.fst) p.2.y rest =
        ((p :: (behind ++ run)) :: runs).map (List.map Prod.fst) := by
  induction rest generalizing p behind with
  | nil =>
      refine ⟨[], [], ?_, rfl, by simp [bandsFrom]⟩
      rw [List.append_nil, maximalRuns_cons]
      exact ⟨h, by simp, maximalRuns_nil⟩
  | cons q rest ih =>
      by_cases hq : q.2.y - p.2.y ≤ t
      · have hnear : ∀ r ∈ p :: (behind ++ [q]), r.2.y - p.2.y ≤ t := by
          rw [← List.cons_append, List.forall_mem_append, List.forall_mem_singleton]
          exact ⟨h, hq⟩
        obtain ⟨run, runs, hr, hrest, hb⟩ := ih hnear
        rw [List.append_assoc, List.singleton_append] at hr hb
        refine ⟨q :: run, runs, hr, by rw [List.cons_append, hrest], ?_⟩
        rw [bandsFrom, if_pos hq, ← hb]
        simp
      · have hone : ∀ r ∈ [q], r.2.y - q.2.y ≤ t := by simpa using ht
        obtain ⟨run, runs, hr, hrest, hb⟩ := ih hone
        refine ⟨[], (q :: run) :: runs, ?_, by simp [hrest], ?_⟩
        · rw [List.append_nil, maximalRuns_cons]
          refine ⟨h, ?_, hr⟩
          rintro _ ⟨⟩ _ ⟨⟩
          exact not_le.1 hq
        · rw [bandsFrom, if_neg hq, List.append_nil, List.map_cons]
          exact congrArg _ hb

end

section

variable {nodes : List (Node K)}

def boxAt (nodes : List (Node K)) (i : Nat) : Rect K := (nodes[i]?.map Node.box).getD .zero

def readingKey (nodes : List (Node K)) (i : Nat) : (K ×ₗ K) ×ₗ Nat :=
  toLex (corner (boxAt nodes i), i)

theorem boxAt_of_mem_readingOrder {group : List Nat} {p : Nat × Rect K}
    (h : p ∈ readingOrder nodes group) : boxAt nodes p.1 = p.2 := by
  obtain ⟨n, hn, hb⟩ := box_of_mem_readingOrder h
  rw [boxAt, hn, hb]
  rfl

/-- Sorting does not exchange nodes that begin in one place. -/
theorem pairwise_readingKey (nodes : List (Node K)) :
    ((readingOrder nodes (List.range nodes.length)).map Prod.fst).Pairwise fun i j =>
      readingKey nodes i < readingKey nodes j := by
  have hkeys : ((List.range nodes.length).filterMap fun i =>
      nodes[i]?.map fun n => (i, n.box)).Pairwise fun p q => p.1 < q.1 := by
    refine List.pairwise_lt_range.filterMap _ fun i j hij p hp q hq => ?_
    obtain ⟨m, -, rfl⟩ := Option.map_eq_some_iff.1 hp
    obtain ⟨n, -, rfl⟩ := Option.map_eq_some_iff.1 hq
    exact hij
  have hstable : (readingOrder nodes (List.range nodes.length)).Pairwise fun p q =>
      readsBefore p.2 q.2 ∧ (readsBefore q.2 p.2 → p.1 < q.1) :=
    pairwise_mergeSort_stable (fun p q r => readsBefore_trans p.2 q.2 r.2)
      (fun p q => readsBefore_total p.2 q.2) hkeys
  rw [List.pairwise_map]
  refine hstable.imp_of_mem fun {p q} hp hq hpq => ?_
  rw [readingKey, readingKey, boxAt_of_mem_readingOrder hp, boxAt_of_mem_readingOrder hq,
    Prod.Lex.toLex_lt_toLex]
  obtain ⟨hle, htie⟩ := hpq
  rw [readsBefore_eq, decide_eq_true_eq] at hle htie
  exact hle.lt_or_eq.imp_right fun he => ⟨he, htie he.ge⟩

/-- Nodes are read in the one order in which their keys ascend. -/
theorem map_fst_readingOrder_eq {order : List Nat} (hp : order.Perm (List.range nodes.length))
    (hs : order.Pairwise fun i j => readingKey nodes i < readingKey nodes j) :
    (readingOrder nodes (List.range nodes.length)).map Prod.fst = order := by
  have hperm := (map_fst_readingOrder_perm fun i hi => List.mem_range.1 hi).trans hp.symm
  exact hperm.eq_of_pairwise (fun i j _ _ hij hji => absurd hij hji.asymm)
    (pairwise_readingKey nodes) hs

/-- Reading order, as it is when the positions of the nodes are known. -/
theorem readingOrder_eq_map {order : List Nat}
    (h : (readingOrder nodes (List.range nodes.length)).map Prod.fst = order) :
    readingOrder nodes (List.range nodes.length) = order.map fun i => (i, boxAt nodes i) := by
  rw [← h, List.map_map]
  refine (List.map_id _).symm.trans (List.map_congr_left fun p hp => ?_)
  rw [Function.comp_apply, boxAt_of_mem_readingOrder hp, id]

theorem maximalRuns_bands (ht : 0 ≤ t) (nodes : List (Node K)) :
    MaximalRuns t (fun i => (boxAt nodes i).y) (bands t nodes) := by
  rw [bands]
  cases ho : readingOrder nodes (List.range nodes.length) with
  | nil => exact maximalRuns_nil
  | cons p rest =>
      have hone : ∀ q ∈ [p], q.2.y - p.2.y ≤ t := by simpa using ht
      obtain ⟨run, runs, hr, hrest, hb⟩ := exists_runs_bandsFrom ht hone rest
      change MaximalRuns t _ (bandsFrom t ([p].map Prod.fst) p.2.y rest)
      rw [hb, maximalRuns_map]
      refine hr.congr fun q hq => ?_
      have hm : q ∈ readingOrder nodes (List.range nodes.length) := by
        rw [ho, ← hrest]
        exact hq
      rw [boxAt_of_mem_readingOrder hm]

theorem bands_of_maximalRuns {groups : List (List Nat)}
    (h : MaximalRuns t (fun i => (boxAt nodes i).y) groups)
    (ho : (readingOrder nodes (List.range nodes.length)).map Prod.fst = groups.flatten) :
    bands t nodes = groups := by
  let place (i : Nat) : Nat × Rect K := (i, boxAt nodes i)
  rw [bands, readingOrder_eq_map ho]
  cases groups with
  | nil => rfl
  | cons group groups =>
      obtain ⟨i, behind, rfl⟩ := List.exists_cons_of_ne_nil (h.ne_nil group List.mem_cons_self)
      have hruns : MaximalRuns t (fun q : Nat × Rect K => q.2.y)
          (((i :: behind) :: groups).map (List.map place)) := maximalRuns_map.2 h
      have hrest : (behind ++ groups.flatten).map place =
          behind.map place ++ (groups.map (List.map place)).flatten := by
        rw [List.map_append, List.map_flatten]
      change bandsFrom t [i] (boxAt nodes i).y ((behind ++ groups.flatten).map place) = _
      rw [hrest]
      refine (bandsFrom_of_maximalRuns hruns).trans ?_
      simp [place, Function.comp_def]

/-- A cut of the nodes into bands. Read one after the other the bands show every node, from the top
down, at one height from left to right, and in one place in their own order. The tops of a band are
within `t` of the first one, and each band begins further than that below the beginning of the one
before it. -/
structure IsBanding (t : K) (nodes : List (Node K)) (groups : List (List Nat)) : Prop where
  partitions : Partitions groups nodes.length
  reads : groups.flatten.Pairwise fun i j => readingKey nodes i < readingKey nodes j
  ne_nil : ∀ band ∈ groups, band ≠ []
  near : ∀ band ∈ groups, ∀ i ∈ band.head?, ∀ j ∈ band,
    |(boxAt nodes j).y - (boxAt nodes i).y| ≤ t
  far : groups.IsChain fun band next => ∀ i ∈ band.head?, ∀ j ∈ next.head?,
    t < (boxAt nodes j).y - (boxAt nodes i).y

theorem y_le_of_readingKey_lt {i j : Nat} (h : readingKey nodes i < readingKey nodes j) :
    (boxAt nodes i).y ≤ (boxAt nodes j).y := by
  have hle : corner (boxAt nodes i) ≤ corner (boxAt nodes j) :=
    (Prod.Lex.toLex_lt_toLex.1 h).elim le_of_lt fun he => he.1.le
  exact (Prod.Lex.toLex_le_toLex.1 hle).elim le_of_lt fun he => he.1.le

theorem y_head_le {groups : List (List Nat)}
    (hs : groups.flatten.Pairwise fun i j => readingKey nodes i < readingKey nodes j)
    {band : List Nat} (hb : band ∈ groups) {i j : Nat} (hi : i ∈ band.head?) (hj : j ∈ band) :
    (boxAt nodes i).y ≤ (boxAt nodes j).y := by
  obtain ⟨behind, rfl⟩ := List.head?_eq_some_iff.1 hi
  rcases List.mem_cons.1 hj with rfl | hj
  · exact le_rfl
  · have hband := List.pairwise_cons.1 ((List.pairwise_flatten.1 hs).1 _ hb)
    exact y_le_of_readingKey_lt (hband.1 j hj)

theorem isBanding_bands [IsStrictOrderedRing K] (ht : 0 ≤ t) (nodes : List (Node K)) :
    IsBanding t nodes (bands t nodes) := by
  have hruns := maximalRuns_bands ht nodes
  have hreads : (bands t nodes).flatten.Pairwise fun i j =>
      readingKey nodes i < readingKey nodes j := by
    rw [flatten_bands]
    exact pairwise_readingKey nodes
  constructor
  case partitions => exact bands_partitions t nodes
  case reads => exact hreads
  case ne_nil => exact hruns.ne_nil
  case near =>
    intro band hb i hi j hj
    rw [abs_of_nonneg (sub_nonneg.2 (y_head_le hreads hb hi hj))]
    exact hruns.near band hb i hi j hj
  case far => exact hruns.far

theorem IsBanding.bands_eq {groups : List (List Nat)} (h : IsBanding t nodes groups) :
    bands t nodes = groups :=
  bands_of_maximalRuns ⟨h.ne_nil, fun band hb i hi j hj =>
    (le_abs_self _).trans (h.near band hb i hi j hj), h.far⟩
    (map_fst_readingOrder_eq h.partitions h.reads)

end

end Drafting.Page

namespace Drafting

open Page

/-- The bands of a diagram are the one cut of its nodes into bands: each takes in what is read
behind its first node for as long as that is within the tolerance of the first node, and steps that
are small one by one do not make it longer. -/
theorem Diagram.bands_isBanding_iff {K : Type} [Field K] [LinearOrder K] [FloorSemiring K]
    [IsStrictOrderedRing K] (t : K) (ht : 0 ≤ t) (d : Diagram K) (groups : List (List Nat)) :
    bands t d.nodes = groups ↔ IsBanding t d.nodes groups := by
  constructor
  · rintro rfl
    exact isBanding_bands ht d.nodes
  · exact IsBanding.bands_eq

def Diagram.steps : Diagram ℚ where
  kind := .generic
  nodes :=
    [⟨"node-1", .root, 60, 45, 20, 40, "step", none⟩,
      ⟨"node-2", .generic, 0, 0, 20, 40, "ground", none⟩,
      ⟨"node-3", .generic, 90, 300, 20, 40, "attic", none⟩,
      ⟨"node-4", .generic, 90, 45, 20, 40, "stair", none⟩,
      ⟨"node-5", .generic, 50, 25, 20, 40, "twin", none⟩]
  edges := []
  title := none
  skipped := []
  unresolved := []

/-- Each step is within the tolerance of the one before it, but the last of them is too far from the
first. -/
theorem Diagram.steps_bands :
    (0 : ℚ) ≤ 30 ∧ bands 30 Diagram.steps.nodes = [[1, 0, 4], [3], [2]] := by
  have ht : (0 : ℚ) ≤ 30 := by decide +kernel
  refine ⟨ht, (Diagram.bands_isBanding_iff 30 ht Diagram.steps _).2 ?_⟩
  constructor
  case partitions =>
    rw [Partitions]
    decide
  case reads => decide +kernel
  case ne_nil => decide
  case near => decide +kernel
  case far => decide +kernel

end Drafting
