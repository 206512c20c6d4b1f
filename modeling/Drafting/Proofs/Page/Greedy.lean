import Mathlib.Data.List.Chain
import Mathlib.Data.Rat.Floor
import Drafting.Proofs.Exact
import Drafting.Proofs.Page.Pack

namespace Drafting

section

variable {β : Type}

/-- Where a member of all runs together stands among them. -/
theorem exists_run_of_flatten_eq {runs : List (List β)} {before after : List β} {b : β}
    (h : runs.flatten = before ++ b :: after) : ∃ earlier xs ys later,
      runs = earlier ++ (xs ++ b :: ys) :: later ∧ before = earlier.flatten ++ xs ∧
        after = ys ++ later.flatten := by
  rcases List.flatten_eq_append_iff.1 h with
    ⟨as, bs, rfl, rfl, hb⟩ | ⟨as, xs, c, ys, cs, rfl, rfl, hc⟩
  · obtain ⟨empty, ys, later, rfl, he, rfl⟩ := List.flatten_eq_cons_iff.1 hb.symm
    refine ⟨as ++ empty, [], ys, later, by simp, ?_, rfl⟩
    rw [List.flatten_append, List.flatten_eq_nil_iff.2 he]
    simp
  · rw [List.cons_append, List.cons_eq_cons] at hc
    obtain ⟨rfl, rfl⟩ := hc
    exact ⟨as, xs, ys, cs, rfl, rfl, rfl⟩

end

namespace Page

variable {α : Type} [Scalar α] {s : PageSettings α} {nodes : List (Node α)}

def runningBox (run : List (Chunk α)) : Option (Rect α) := Rect.enclosing? (run.map Chunk.box)

omit [Scalar α] in
def onPage (run : List (Chunk α)) : List Nat := run.flatMap Chunk.members

def HasRoom (s : PageSettings α) (run : List (Chunk α)) : Prop :=
  ∀ before c, before ++ [c] <+: run → ∀ r, runningBox before = some r → fits s (r.join c.box)

def IsCrowdedOut (s : PageSettings α) (run next : List (Chunk α)) : Prop :=
  ∃ r c, runningBox run = some r ∧ next.head? = some c ∧ ¬ fits s (r.join c.box)

structure IsGreedy (s : PageSettings α) (runs : List (List (Chunk α))) : Prop where
  ne_nil : ∀ run ∈ runs, run ≠ []
  room : ∀ run ∈ runs, HasRoom s run
  full : runs.IsChain (IsCrowdedOut s)

theorem runningBox_concat {run : List (Chunk α)} {r : Rect α} (h : runningBox run = some r)
    (c : Chunk α) : runningBox (run ++ [c]) = some (r.join c.box) := by
  cases run with
  | nil => cases h
  | cons a run =>
      simp only [runningBox, List.map_cons, Rect.enclosing?, Option.some_inj] at h
      simp [runningBox, Rect.enclosing?, List.foldl_append, h]

theorem hasRoom_singleton (s : PageSettings α) (c : Chunk α) : HasRoom s [c] := by
  intro before b hb r hr
  have hl := hb.length_le
  cases before with
  | nil => cases hr
  | cons a before => simp at hl

theorem HasRoom.concat {run : List (Chunk α)} (h : HasRoom s run) {r : Rect α}
    (hr : runningBox run = some r) {c : Chunk α} (hc : fits s (r.join c.box)) :
    HasRoom s (run ++ [c]) := by
  intro before b hb r' hr'
  rcases List.prefix_concat_iff.1 hb with he | hb
  · obtain ⟨rfl, hcb⟩ := List.append_inj' he rfl
    cases hcb
    cases hr.symm.trans hr'
    exact hc
  · exact h before b hb r' hr'

/-- An open page takes what it can from the front of the chunks and leaves the rest to greedy
runs. -/
theorem exists_runs_fill {run : List (Chunk α)} {page : Chunk α} (hm : onPage run = page.members)
    (hb : runningBox run = some page.box) (hr : HasRoom s run) (cs : List (Chunk α)) :
    ∃ taken runs, IsGreedy s ((run ++ taken) :: runs) ∧ taken ++ runs.flatten = cs ∧
      fill s page cs = ((run ++ taken) :: runs).map onPage := by
  -- The open run is the invariant: its chunks are on the page and its box is the one carried along.
  induction cs generalizing run page with
  | nil =>
      refine ⟨[], [], ⟨?_, ?_, List.isChain_singleton _⟩, rfl, ?_⟩
      · simp only [List.append_nil, List.forall_mem_singleton]
        rintro rfl
        cases hb
      · simpa using hr
      · simp [fill, hm]
  | cons c cs ih =>
      rw [fill]
      by_cases hc : fits s (page.box.join c.box)
      · obtain ⟨taken, runs, hg, hcs, hf⟩ :=
          @ih (run ++ [c]) ⟨page.members ++ c.members, page.box.join c.box⟩
            (by simp [onPage, ← hm]) (runningBox_concat hb c) (hr.concat hb hc)
        rw [List.append_assoc] at hg hf
        rw [if_pos hc]
        exact ⟨c :: taken, runs, hg, congrArg (c :: ·) hcs, hf⟩
      · obtain ⟨taken, runs, hg, hcs, hf⟩ :=
          ih (show onPage [c] = c.members by simp [onPage]) rfl (hasRoom_singleton s c)
        rw [if_neg hc, hf]
        refine ⟨[], ([c] ++ taken) :: runs, ⟨?_, ?_, ?_⟩, ?_, ?_⟩
        · rw [List.append_nil]
          refine List.forall_mem_cons.2 ⟨?_, hg.ne_nil⟩
          rintro rfl
          cases hb
        · rw [List.append_nil]
          exact List.forall_mem_cons.2 ⟨hr, hg.room⟩
        · rw [List.append_nil]
          exact List.isChain_cons_cons.2 ⟨⟨_, c, hb, rfl, hc⟩, hg.full⟩
        · rw [List.nil_append, List.flatten_cons, List.append_assoc, hcs]
          rfl
        · rw [List.append_nil, ← hm]
          rfl

theorem exists_runs_pack (s : PageSettings α) (nodes : List (Node α)) (units : List (List Nat)) :
    ∃ runs, IsGreedy s runs ∧ runs.flatten = chunks s nodes units ∧
      pack s nodes units = runs.map onPage := by
  rw [pack_eq_fill]
  cases chunks s nodes units with
  | nil => exact ⟨[], ⟨by simp, by simp, List.isChain_nil⟩, rfl, rfl⟩
  | cons c cs =>
      obtain ⟨taken, runs, hg, hcs, hf⟩ := exists_runs_fill
        (show onPage [c] = c.members by simp [onPage]) rfl (hasRoom_singleton s c) cs
      refine ⟨_, hg, ?_, hf⟩
      rw [List.flatten_cons, List.append_assoc, hcs]
      rfl

theorem members_firstFit_ne_nil {i : Nat} {r : Rect α} {cs : List (Chunk α)}
    (h : ∀ c ∈ cs, c.members ≠ []) : ∀ c ∈ firstFit s i r cs, c.members ≠ [] := by
  induction cs with
  | nil => simp [firstFit]
  | cons a cs ih =>
      obtain ⟨ha, hcs⟩ := List.forall_mem_cons.1 h
      rw [firstFit]
      split
      · exact List.forall_mem_cons.2 ⟨by simp, hcs⟩
      · exact List.forall_mem_cons.2 ⟨ha, ih hcs⟩

theorem ne_nil_of_mem_splitUnit {unit chunk : List Nat} (h : chunk ∈ splitUnit s nodes unit) :
    chunk ≠ [] := by
  have hfold (placed : List (Nat × Rect α)) (cs : List (Chunk α)) (hcs : ∀ c ∈ cs, c.members ≠ []) :
      ∀ c ∈ placed.foldl (fun cs p => firstFit s p.1 p.2 cs) cs, c.members ≠ [] := by
    induction placed generalizing cs with
    | nil => exact hcs
    | cons p placed ih => exact ih _ (members_firstFit_ne_nil hcs)
  obtain ⟨c, hc, rfl⟩ := List.mem_map.1 h
  exact hfold _ [] (by simp) c hc

section

variable {unit : List Nat} {units : List (List Nat)}

theorem exists_groupExtent (hr : InRange nodes unit) (hne : unit ≠ []) :
    ∃ r, groupExtent nodes unit = some r := by
  rw [← Option.isSome_iff_exists, Option.isSome_iff_ne_none]
  exact mt (groupExtent_eq_none hr).1 hne

theorem chunksOf_eq {r : Rect α} (h : groupExtent nodes unit = some r) :
    chunksOf s nodes unit = if fits s r then [unit] else splitUnit s nodes unit := by
  rw [chunksOf, h]

theorem ne_nil_of_mem_chunksOf {chunk : List Nat} (hne : unit ≠ [])
    (h : chunk ∈ chunksOf s nodes unit) : chunk ≠ [] := by
  rw [chunksOf] at h
  split at h
  · cases h
  · split at h
    · rwa [List.mem_singleton.1 h]
    · exact ne_nil_of_mem_splitUnit h

/-- No chunk is dropped. -/
theorem map_members_chunks (hne : ∀ unit ∈ units, unit ≠ [])
    (hr : ∀ unit ∈ units, InRange nodes unit) :
    (chunks s nodes units).map Chunk.members = units.flatMap (chunksOf s nodes) := by
  rw [chunks, List.map_filterMap]
  refine (List.filterMap_congr fun chunk hc => ?_).trans List.filterMap_some
  obtain ⟨unit, hu, hc⟩ := List.mem_flatMap.1 hc
  obtain ⟨r, he⟩ := exists_groupExtent (inRange_of_mem_chunksOf (hr unit hu) hc)
    (ne_nil_of_mem_chunksOf (hne unit hu) hc)
  simp [he]

theorem chunks_append (s : PageSettings α) (nodes : List (Node α)) (us vs : List (List Nat)) :
    chunks s nodes (us ++ vs) = chunks s nodes us ++ chunks s nodes vs := by
  rw [chunks, List.flatMap_append, List.filterMap_append]
  rfl

theorem disjoint_of_mem_chunks {c : Chunk α} (hr : ∀ unit ∈ units, InRange nodes unit)
    {other : List Nat} (hd : ∀ unit ∈ units, other.Disjoint unit) (hc : c ∈ chunks s nodes units) :
    other.Disjoint c.members := by
  obtain ⟨unit, hu, hm, -⟩ := exists_of_mem_chunks hc
  intro i hi hic
  exact hd unit hu hi
    ((flatten_chunksOf_perm s (hr unit hu)).subset (List.mem_flatten.2 ⟨_, hm, hic⟩))

omit [Scalar α] in
theorem disjoint_onPage {other : List Nat} {run : List (Chunk α)}
    (h : ∀ c ∈ run, other.Disjoint c.members) : other.Disjoint (onPage run) := by
  intro i hi hm
  obtain ⟨c, hc, hic⟩ := List.mem_flatMap.1 hm
  exact h c hc hi hic

/-- A unit that fits is one chunk, and no other page has a part of it. -/
theorem exists_page_of_fits (hd : units.Pairwise List.Disjoint)
    (hr : ∀ unit ∈ units, InRange nodes unit) (hu : unit ∈ units) {r : Rect α}
    (he : groupExtent nodes unit = some r) (hf : fits s r) :
    ∃ before page after, pack s nodes units = before ++ page :: after ∧ unit <:+: page ∧
      ∀ other ∈ before ++ after, unit.Disjoint other := by
  obtain ⟨us, vs, rfl⟩ := List.append_of_mem hu
  obtain ⟨runs, -, hruns, hp⟩ := exists_runs_pack s nodes (us ++ unit :: vs)
  have hone : chunks s nodes [unit] = [⟨unit, r⟩] := by
    simp [chunks, chunksOf_eq he, hf, he]
  rw [← List.singleton_append, chunks_append, chunks_append, hone, List.singleton_append] at hruns
  obtain ⟨earlier, xs, ys, later, rfl, hus, hvs⟩ := exists_run_of_flatten_eq hruns
  have hapart : ∀ c ∈ chunks s nodes us ++ chunks s nodes vs, unit.Disjoint c.members := by
    obtain ⟨-, hright, hleft⟩ := List.pairwise_append.1 hd
    intro c hc
    rcases List.mem_append.1 hc with hc | hc
    · exact disjoint_of_mem_chunks (fun v hv => hr v (by simp [hv]))
        (fun v hv i hi hiv => hleft v hv unit List.mem_cons_self hiv hi) hc
    · exact disjoint_of_mem_chunks (fun v hv => hr v (by simp [hv]))
        (fun v hv => (List.pairwise_cons.1 hright).1 v hv) hc
  refine ⟨earlier.map onPage, onPage (xs ++ ⟨unit, r⟩ :: ys), later.map onPage, ?_, ?_, ?_⟩
  · rw [hp, List.map_append, List.map_cons]
  · exact ⟨onPage xs, onPage ys, by simp [onPage]⟩
  · rw [← List.map_append, List.forall_mem_map]
    intro run hrun
    refine disjoint_onPage fun c hc => hapart c ?_
    rw [hus, hvs]
    rcases List.mem_append.1 hrun with h | h
    · simp [List.mem_flatten.2 ⟨run, h, hc⟩]
    · simp [List.mem_flatten.2 ⟨run, h, hc⟩]

end

end Page

open Page in
/-- Units that share no node are packed in their order. One that fits lies on one page, without a
gap, and no other page has a part of it; one that does not is replaced by its chunks. The pages are
runs of all these chunks, and each of them is as long as it can be: every chunk but the first has
found room behind those before it, and the first one of the next page has not. -/
theorem Diagram.pack_isGreedy {α : Type} [Scalar α] (s : PageSettings α)
    (d : Diagram α) (units : List (List Nat)) (hd : units.Pairwise List.Disjoint)
    (hne : ∀ unit ∈ units, unit ≠ []) (hr : ∀ unit ∈ units, InRange d.nodes unit) :
    (∀ unit ∈ units, ∃ r, groupExtent d.nodes unit = some r ∧
      (fits s r → chunksOf s d.nodes unit = [unit] ∧
        ∃ before page after, pack s d.nodes units = before ++ page :: after ∧ unit <:+: page ∧
          ∀ other ∈ before ++ after, unit.Disjoint other) ∧
      (¬ fits s r → chunksOf s d.nodes unit = splitUnit s d.nodes unit ∧
        (splitUnit s d.nodes unit).flatten.Perm unit)) ∧
    (pack s d.nodes units).flatten = units.flatMap (fun unit => (chunksOf s d.nodes unit).flatten) ∧
    ∃ runs, IsGreedy s runs ∧ pack s d.nodes units = runs.map onPage ∧
      runs.flatten.map Chunk.members = units.flatMap (chunksOf s d.nodes) ∧
      ∀ c ∈ runs.flatten, groupExtent d.nodes c.members = some c.box := by
  refine ⟨fun unit hu => ?_, ?_, ?_⟩
  · obtain ⟨r, he⟩ := exists_groupExtent (hr unit hu) (hne unit hu)
    refine ⟨r, he, fun hf => ⟨?_, exists_page_of_fits hd hr hu he hf⟩, fun hf => ⟨?_, ?_⟩⟩
    · rw [chunksOf_eq he, if_pos hf]
    · rw [chunksOf_eq he, if_neg hf]
    · exact flatten_splitUnit_perm s (hr unit hu)
  · rw [flatten_pack s hr, ← List.flatMap_id, List.flatMap_assoc]
    simp only [List.flatMap_id]
  · obtain ⟨runs, hg, hruns, hp⟩ := exists_runs_pack s d.nodes units
    refine ⟨runs, hg, hp, ?_, fun c hc => ?_⟩
    · rw [hruns, map_members_chunks hne hr]
    · rw [hruns] at hc
      obtain ⟨unit, -, -, hb⟩ := exists_of_mem_chunks hc
      exact hb

def Diagram.fiveBoxes : Diagram ℚ where
  kind := .generic
  nodes :=
    [⟨"node-1", .generic, 0, 0, 4, 4, "cup", none⟩,
      ⟨"node-2", .generic, 5, 0, 4, 4, "mug", none⟩,
      ⟨"node-3", .generic, 20, 0, 4, 4, "jar", none⟩,
      ⟨"node-4", .generic, 25, 0, 4, 4, "jug", none⟩,
      ⟨"node-5", .generic, 26, 5, 4, 4, "lid", none⟩]
  edges := []
  title := none
  skipped := []
  unresolved := []

def PageSettings.small : PageSettings ℚ :=
  { PageSettings.standard with maxWidth := 10, maxHeight := 10 }

theorem Diagram.fiveBoxes_splitUnit :
    Page.splitUnit .small Diagram.fiveBoxes.nodes [1, 2, 3] = [[1], [2, 3]] := by
  rw [Page.splitUnit, Page.readingOrder, List.mergeSort_of_pairwise]
  · decide +kernel
  · decide +kernel

/-- The second unit is wider than a page, and its nodes come onto two. -/
theorem Diagram.fiveBoxes_pack_isGreedy :
    let units := [[0], [1, 2, 3], [4]]
    units.Pairwise List.Disjoint ∧ (∀ unit ∈ units, unit ≠ []) ∧
      (∀ unit ∈ units, Page.InRange Diagram.fiveBoxes.nodes unit) ∧
      Page.pack .small Diagram.fiveBoxes.nodes units = [[0, 1], [2, 3, 4]] ∧
      (∃ before page after, [[0, 1], [2, 3, 4]] = before ++ page :: after ∧ [4] <:+: page ∧
        ∀ other ∈ before ++ after, List.Disjoint [4] other) ∧
      ∃ runs, Page.IsGreedy .small runs ∧ [[0, 1], [2, 3, 4]] = runs.map Page.onPage ∧
        runs.flatten.map Page.Chunk.members = [[0], [1], [2, 3], [4]] := by
  intro units
  have hd : units.Pairwise List.Disjoint := by simp [units]
  have hne : ∀ unit ∈ units, unit ≠ [] := by decide
  have hr : ∀ unit ∈ units, Page.InRange Diagram.fiveBoxes.nodes unit := by
    unfold Page.InRange
    decide
  have hlast : Page.groupExtent Diagram.fiveBoxes.nodes [4] = some ⟨26, 5, 4, 4⟩ := by
    decide +kernel
  have hchunks : units.flatMap (Page.chunksOf .small Diagram.fiveBoxes.nodes) =
      [[0], [1], [2, 3], [4]] := by
    have hfirst : Page.chunksOf .small Diagram.fiveBoxes.nodes [0] = [[0]] := by decide +kernel
    have hsecond : Page.chunksOf .small Diagram.fiveBoxes.nodes [1, 2, 3] = [[1], [2, 3]] := by
      rw [Page.chunksOf_eq (r := ⟨5, 0, 24, 4⟩) (by decide +kernel), if_neg (by decide +kernel),
        Diagram.fiveBoxes_splitUnit]
    have hthird : Page.chunksOf .small Diagram.fiveBoxes.nodes [4] = [[4]] := by decide +kernel
    simp [units, hfirst, hsecond, hthird]
  have hpack : Page.pack .small Diagram.fiveBoxes.nodes units = [[0, 1], [2, 3, 4]] := by
    rw [Page.pack, hchunks]
    decide +kernel
  obtain ⟨htogether, -, runs, hg, hp, hruns, -⟩ :=
    Diagram.pack_isGreedy .small Diagram.fiveBoxes units hd hne hr
  obtain ⟨r, he, hf, -⟩ := htogether [4] (by decide)
  obtain rfl : r = ⟨26, 5, 4, 4⟩ := Option.some_inj.1 (he.symm.trans hlast)
  rw [hpack] at hp hf
  exact ⟨hd, hne, hr, hpack, (hf (by decide +kernel)).2, runs, hg, hp, hruns.trans hchunks⟩

end Drafting
