import Drafting.Proofs.Source.Outline

namespace Drafting

section

variable {α : Type}

def Diagram.edgesTo (d : Diagram α) (n : Node α) : List Edge := d.edges.filter (·.target == n.id)

def Diagram.edgesFrom (d : Diagram α) (n : Node α) : List Edge := d.edges.filter (·.source == n.id)

def Diagram.levels (d : Diagram α) : List Nat := d.nodes.map fun n => n.level.getD 0

end

namespace Source

theorem indentation_eq (raw : List Char) :
    let blanks := raw.takeWhile Text.isBlank
    indentation raw = blanks.length + blanks.count '\t' := by
  have hfold (blanks : List Char) (width : Nat) :
      blanks.foldl (fun width c => width + if c = '\t' then 2 else 1) width =
        width + (blanks.length + blanks.count '\t') := by
    induction blanks generalizing width with
    | nil => rfl
    | cons c blanks ih =>
        rw [List.foldl_cons, ih, List.length_cons, List.count_cons]
        by_cases hc : c = '\t' <;> simp [hc] <;> omega
  intro blanks
  rw [indentation, hfold, Nat.zero_add]

namespace Outline

variable {levels : List Nat} {i j : Nat}

structure IsNearest (levels : List Nat) (i j : Nat) : Prop where
  above : j < i
  lesser : levelAt levels j < levelAt levels i
  last : ∀ k, j < k → k < i → levelAt levels i ≤ levelAt levels k

theorem superior?_eq_none_iff :
    superior? levels i = none ↔ ∀ j < i, levelAt levels i ≤ levelAt levels j := by
  simp [superior?]

theorem IsNearest.unique {k : Nat} (h : IsNearest levels i j) (h' : IsNearest levels i k) :
    j = k := by
  rcases Nat.lt_trichotomy j k with hjk | hjk | hjk
  · exact absurd (h.last k hjk h'.above) (Nat.not_le.2 h'.lesser)
  · exact hjk
  · exact absurd (h'.last j hjk h.above) (Nat.not_le.2 h.lesser)

theorem superior?_eq_some_iff : superior? levels i = some j ↔ IsNearest levels i j := by
  have hnearest {k : Nat} (h : superior? levels i = some k) : IsNearest levels i k := by
    obtain ⟨front, hfront⟩ := List.getLast?_eq_some_iff.1 h
    have hsorted : (front ++ [k]).Pairwise (· < ·) := hfront ▸ List.pairwise_lt_range.filter _
    have hmem (j : Nat) : j ∈ front ++ [k] ↔ j < i ∧ levelAt levels j < levelAt levels i := by
      simp [← hfront]
    obtain ⟨hk, hlesser⟩ := (hmem k).1 (by simp)
    refine ⟨hk, hlesser, fun j hkj hj => Nat.not_lt.1 fun hlt => ?_⟩
    rcases List.mem_append.1 ((hmem j).2 ⟨hj, hlt⟩) with hf | hl
    · exact hkj.asymm ((List.pairwise_append.1 hsorted).2.2 j hf k (by simp))
    · exact hkj.ne' (List.mem_singleton.1 hl)
  refine ⟨hnearest, fun h => ?_⟩
  cases hs : superior? levels i with
  | none => exact absurd (superior?_eq_none_iff.1 hs j h.above) (Nat.not_le.2 h.lesser)
  | some k => rw [h.unique (hnearest hs)]

section

variable {α : Type} {d : Diagram α} {n : Node α}

structure HangsBy (d : Diagram α) (levels : List Nat) : Prop where
  ids : d.ids.Nodup
  ends : d.edges.map (fun e => (e.source, e.target)) =
    (List.range d.nodes.length).filterMap fun i =>
      (superior? levels i).map fun j => (d.ids.getD j "", d.ids.getD i "")

theorem getD_ids (h : d.nodes[i]? = some n) : d.ids.getD i "" = n.id := by
  rw [Diagram.ids, List.getD_eq_getElem?_getD, List.getElem?_map, h]
  rfl

namespace HangsBy

theorem getD_ids_eq_iff (h : HangsBy d levels) (hi : i < d.nodes.length)
    (hj : j < d.nodes.length) : d.ids.getD i "" = d.ids.getD j "" ↔ i = j := by
  have hlength : d.ids.length = d.nodes.length := List.length_map _
  rw [List.getD_eq_getElem _ _ (hlength ▸ hi), List.getD_eq_getElem _ _ (hlength ▸ hj)]
  exact h.ids.getElem_inj_iff

theorem map_source_edgesTo (h : HangsBy d levels) (hn : d.nodes[i]? = some n) :
    (d.edgesTo n).map Edge.source = ((superior? levels i).map fun j => d.ids.getD j "").toList := by
  have hi := (List.getElem?_eq_some_iff.1 hn).1
  have hends : (d.edgesTo n).map Edge.source =
      ((d.edges.map fun e => (e.source, e.target)).filter (·.2 == n.id)).map Prod.fst := by
    rw [Diagram.edgesTo, List.filter_map, List.map_map]
    rfl
  have honly : ((List.range d.nodes.length).filter (· == i)) = [i] := by
    rw [List.filter_beq, List.count_eq_one_of_mem List.nodup_range (List.mem_range.2 hi)]
    rfl
  have hpick : ∀ k ∈ List.range d.nodes.length,
      (((superior? levels k).map fun j => (d.ids.getD j "", d.ids.getD k "")).filter
        (·.2 == n.id)).map Prod.fst =
          if k == i then (superior? levels k).map fun j => d.ids.getD j "" else none := by
    intro k hk
    have hid := h.getD_ids_eq_iff (List.mem_range.1 hk) hi
    rw [getD_ids hn] at hid
    cases superior? levels k <;> by_cases hki : k = i <;> simp_all
  rw [hends, h.ends, List.filter_filterMap, List.map_filterMap, List.filterMap_congr hpick,
    ← List.filterMap_filter, honly]
  cases hs : superior? levels i <;> simp [hs]

theorem edgesTo_eq_nil_iff (h : HangsBy d levels) (hn : d.nodes[i]? = some n) :
    d.edgesTo n = [] ↔ superior? levels i = none := by
  rw [← List.map_eq_nil_iff (f := Edge.source), h.map_source_edgesTo hn]
  cases superior? levels i <;> simp

theorem edgesFrom_eq_nil_iff (h : HangsBy d levels) (hn : d.nodes[i]? = some n) :
    d.edgesFrom n = [] ↔ ∀ k < d.nodes.length, superior? levels k ≠ some i := by
  have hi := (List.getElem?_eq_some_iff.1 hn).1
  have hends : d.edgesFrom n = [] ↔
      ∀ p ∈ d.edges.map fun e => (e.source, e.target), p.1 ≠ n.id := by
    simp [Diagram.edgesFrom, List.filter_eq_nil_iff]
  rw [hends, h.ends, ← getD_ids hn]
  simp only [List.mem_filterMap, List.mem_range, Option.map_eq_some_iff, ne_eq]
  constructor
  · intro hp k hk hs
    exact hp _ ⟨k, hk, i, hs, rfl⟩ rfl
  · rintro hs _ ⟨k, hk, j, hj, rfl⟩ he
    rw [h.getD_ids_eq_iff ((superior?_lt hj).trans hk) hi] at he
    exact hs k hk (he ▸ hj)

theorem exists_target (h : HangsBy d levels) {e : Edge} (he : e ∈ d.edges) :
    ∃ n ∈ d.nodes, e.target = n.id := by
  have hm : (e.source, e.target) ∈ d.edges.map fun e => (e.source, e.target) :=
    List.mem_map_of_mem he
  rw [h.ends] at hm
  obtain ⟨i, hi, hs⟩ := List.mem_filterMap.1 hm
  obtain ⟨j, -, hj⟩ := Option.map_eq_some_iff.1 hs
  have hn := List.getElem?_eq_getElem (List.mem_range.1 hi)
  refine ⟨_, List.mem_of_getElem? hn, ?_⟩
  rw [← getD_ids hn]
  exact (congrArg Prod.snd hj).symm

end HangsBy

end

def headingOf (raw : List Char) : String × Option Nat :=
  let blanks := raw.takeWhile Text.isBlank
  (String.ofList (Text.unquote (dropBullet (Text.trim raw))),
    some ((blanks.length + blanks.count '\t') / 2))

def spoken (text : List Char) : List (List Char) :=
  ((sourceLines marks text).filter (Option.isSome ∘ entry?)).map fun l =>
    (Text.pieces '\n' text).getD (l.number - 1) []

theorem getD_pieces_of_mem {text : List Char} {l : Line} (h : l ∈ sourceLines marks text) :
    Line.ofRaw? marks l.number ((Text.pieces '\n' text).getD (l.number - 1) []) = some l := by
  obtain ⟨⟨raw, k⟩, hraw, hl⟩ := List.mem_filterMap.1 ((sourceLines_sublist marks text).subset h)
  have hnumber : l.number = k := by
    rw [Line.ofRaw?, Option.ite_none_left_eq_some] at hl
    exact (congrArg Line.number (Option.some.inj hl.2)).symm
  obtain ⟨-, hget⟩ := List.mem_zipIdx_iff_le_and_getElem?_sub.1 hraw
  rw [hnumber, List.getD_eq_getElem?_getD, hget]
  exact hl

theorem map_headings_entriesOf (text : List Char) :
    (entriesOf text).map (fun e => (e.label, some e.level)) = (spoken text).map headingOf := by
  rw [entriesOf, List.map_filterMap, spoken, List.map_map, ← List.filterMap_eq_map,
    List.filterMap_filter]
  refine List.filterMap_congr fun l hl => ?_
  rw [Function.comp_apply]
  cases he : entry? l with
  | none => rfl
  | some e =>
      have hraw := getD_pieces_of_mem hl
      rw [Line.ofRaw?, Option.ite_none_left_eq_some] at hraw
      obtain ⟨label, hlabel, rfl⟩ := Option.map_eq_some_iff.1 he
      rw [Text.nonempty?, Option.ite_none_left_eq_some] at hlabel
      have hl := Option.some.inj hraw.2
      simp only [Option.map_some, Function.comp_apply, Option.isSome_some, if_true, headingOf,
        ← Option.some.inj hlabel.2, ← indentation_eq]
      rw [← congrArg Line.text hl, ← congrArg Line.indent hl]

/-- What the edges of an outline say of its nodes. -/
structure IsHung {α : Type} (d : Diagram α) : Prop where
  ids : d.ids.Nodup
  under : ∀ i n, d.nodes[i]? = some n →
    (d.edgesTo n ≠ [] ↔ ∃ j < i, levelAt d.levels j < levelAt d.levels i)
  nearest : ∀ i j n m, d.nodes[i]? = some n → d.nodes[j]? = some m → IsNearest d.levels i j →
    (d.edgesTo n).map Edge.source = [m.id]
  ends : ∀ e ∈ d.edges, ∃ n ∈ d.nodes, e.target = n.id
  kinds : ∀ n ∈ d.nodes, n.kind =
    if d.edgesTo n = [] then .root else if d.edgesFrom n = [] then .leaf else .branch

theorem HangsBy.isHung {α : Type} {d : Diagram α} (h : HangsBy d levels) (hl : d.levels = levels)
    (hk : ∀ i n, d.nodes[i]? = some n → n.kind =
      roleOf ((List.range d.nodes.length).map (superior? levels)) i (superior? levels i)) :
    IsHung d := by
  subst hl
  constructor
  case ids => exact h.ids
  case ends => exact fun e => h.exists_target
  case under =>
    intro i n hn
    rw [ne_eq, h.edgesTo_eq_nil_iff hn, superior?_eq_none_iff]
    simp
  case nearest =>
    intro i j n m hn hm hij
    rw [h.map_source_edgesTo hn, superior?_eq_some_iff.2 hij, Option.map_some, getD_ids hm]
    rfl
  case kinds =>
    intro n hn
    obtain ⟨i, hi⟩ := List.mem_iff_getElem?.1 hn
    rw [hk i n hi, roleOf]
    simp only [h.edgesTo_eq_nil_iff hi, h.edgesFrom_eq_nil_iff hi]
    cases hs : superior? d.levels i with
    | none => rfl
    | some j =>
        by_cases hbelow : ∃ k < d.nodes.length, superior? d.levels k = some i
        · simp [hbelow]
        · simp [not_exists.1 hbelow]

section

variable {α : Type} [Scalar α] {skipped : List Nat} {unresolved : List String} {ids rest : IdSupply}
  {d : Diagram α}

theorem map_headings_toDiagram (entries : List Entry) :
    ((sketch entries).toDiagram .mindmap skipped unresolved ids : Diagram α).nodes.map
        (fun n => (n.label, n.level)) = entries.map fun e => (e.label, some e.level) := by
  let heading (item : Sketch.Item) : String × Option Nat :=
    let n : Node α := item.toNode .mindmap ""
    (n.label, n.level)
  rw [Sketch.map_nodes_toDiagram (u := heading) fun _ _ => rfl]
  refine List.ext_getElem? fun i => ?_
  rw [List.getElem?_map, List.getElem?_map, getElem?_items, Option.map_map]
  rfl

theorem hangsBy_toDiagram (entries : List Entry) :
    HangsBy ((sketch entries).toDiagram .mindmap skipped unresolved ids : Diagram α)
      (entries.map Entry.level) := by
  constructor
  case ids => exact Sketch.nodup_ids_toDiagram
  case ends =>
    have hends : ((sketch entries).toDiagram .mindmap skipped unresolved ids : Diagram α).edges.map
        (fun e => (e.source, e.target)) = (sketch entries).ties.map fun t =>
          ((ids.take "node" (sketch entries).items.length).getD t.source "",
            (ids.take "node" (sketch entries).items.length).getD t.target "") :=
      map_zipWith_left (fun _ _ => rfl) (by simp)
    have hlength : (sketch entries).items.length = entries.length := by
      simpa using congrArg List.length (map_label_items entries)
    rw [Sketch.ids_toDiagram, hends, Sketch.toDiagram, List.length_zipWith, IdSupply.length_take,
      Nat.min_self, hlength]
    let idAt (i : Nat) : String := (ids.take "node" entries.length).getD i ""
    have hties := congrArg (List.map (Prod.map idAt idAt)) (map_ties entries)
    rw [List.map_map, List.map_filterMap] at hties
    refine hties.trans (List.filterMap_congr fun i _ => ?_)
    rw [Option.map_map]
    rfl

theorem isHung_toDiagram (entries : List Entry) :
    IsHung ((sketch entries).toDiagram .mindmap skipped unresolved ids : Diagram α) := by
  let made : Diagram α := (sketch entries).toDiagram .mindmap skipped unresolved ids
  have hheadings : made.nodes.map (fun n => (n.label, n.level)) =
      entries.map fun e => (e.label, some e.level) := map_headings_toDiagram entries
  have hlength : made.nodes.length = entries.length := by
    simpa using congrArg List.length hheadings
  refine (hangsBy_toDiagram entries).isHung ?_ fun i n hn => ?_
  · have hlevels := congrArg (List.map fun p => p.2.getD 0) hheadings
    rwa [List.map_map, List.map_map] at hlevels
  · rw [show ((sketch entries).toDiagram .mindmap skipped unresolved ids : Diagram α).nodes.length =
      entries.length from hlength]
    rw [Sketch.toDiagram, List.getElem?_zipWith_eq_some] at hn
    obtain ⟨item, id, hi, -, rfl⟩ := hn
    rw [getElem?_items, Option.map_eq_some_iff] at hi
    obtain ⟨e, -, rfl⟩ := hi
    rfl

theorem parseWith_isHung (text : List Char)
    (h : parseWith .mindmap text ids = .ok (d, rest)) :
    d.nodes.map (fun n => (n.label, n.level)) = (spoken text).map headingOf ∧ IsHung d := by
  obtain ⟨-, -, rfl⟩ := parseWith_eq_ok h
  exact ⟨(map_headings_toDiagram _).trans (map_headings_entriesOf text), isHung_toDiagram _⟩

end

def mixedIndents : List Char :=
  "Garden\n\t\t- Beds\n# sowing\n\n   Paths\n  \"Pond\"\n\tFrogs\nShed".toList

theorem mixedIndents_isHung :
    ∃ (d : Diagram Float32) (rest : IdSupply),
      parseWith .mindmap mixedIndents .fresh = .ok (d, rest) ∧
      d.nodes.map (fun n => (n.label, n.level)) = [("Garden", some 0), ("Beds", some 2),
        ("Paths", some 1), ("Pond", some 1), ("Frogs", some 1), ("Shed", some 0)] ∧
      d.edges.map (fun e => (e.source, e.target)) = [("node-1", "node-2"), ("node-1", "node-3"),
        ("node-1", "node-4"), ("node-1", "node-5")] ∧ IsHung d := by
  exact ⟨_, _, rfl, rfl, rfl, (parseWith_isHung mixedIndents rfl).2⟩

end Outline

end Source

end Drafting
