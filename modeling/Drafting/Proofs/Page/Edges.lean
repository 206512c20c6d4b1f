import Drafting.Proofs.Link
import Drafting.Proofs.Page.Nodes

namespace Drafting

variable {α : Type} [Scalar α] {d : Diagram α} {s : PageSettings α}

namespace Page

omit [Scalar α] in
def shows (p : Page α) (id : String) : Bool := p.nodes.any (·.id == id)

omit [Scalar α] in
def StandsOn (pages : List (Page α)) (j : Nat) (id : String) : Prop :=
  ∃ p, pages[j]? = some p ∧ p.shows id

omit [Scalar α] in
def keptAt (d : Diagram α) (p : Page α) : List Nat :=
  positionsOf (fun e => (p.shows e.source && p.shows e.target) && d.joins e) d.edges

omit [Scalar α] in
def crossingAt (d : Diagram α) (p : Page α) : List Nat :=
  positionsOf (fun e => (p.shows e.source != p.shows e.target) && d.joins e) d.edges

omit [Scalar α] in
theorem mem_keptAt {p : Page α} {k : Nat} {e : Edge} (he : d.edges[k]? = some e) :
    k ∈ keptAt d p ↔ (p.shows e.source ∧ p.shows e.target) ∧ d.joins e := by
  simp [keptAt, mem_positionsOf, he]

omit [Scalar α] in
theorem mem_crossingAt {p : Page α} {k : Nat} {e : Edge} (he : d.edges[k]? = some e) :
    k ∈ crossingAt d p ↔ ¬ (p.shows e.source ↔ p.shows e.target) ∧ d.joins e := by
  rw [crossingAt, mem_positionsOf]
  cases hs : p.shows e.source <;> cases ht : p.shows e.target <;> simp [he, hs, ht]

theorem shows_eq (title : Option String) (total j : Nat) (sel : Selection α) (id : String) :
    (ofSelection s title total j sel).shows id = sel.nodes.any (·.id == id) := List.any_map

theorem edges_of_getElem?_pages (hk : d.kind ≠ .sequence) {j : Nat} {p : Page α}
    (hp : (d.pages s)[j]? = some p) : p.edges.map some = (keptAt d p).map (d.edges[·]?) := by
  rw [getElem?_pages hk] at hp
  obtain ⟨group, _, rfl⟩ := Option.map_eq_some_iff.1 hp
  rw [keptAt, map_getElem?_positionsOf, ← List.filter_filter, ← d.connected_eq_filter]
  simp only [shows_eq]
  rfl

theorem external_of_getElem?_pages (hk : d.kind ≠ .sequence) {j : Nat} {p : Page α}
    (hp : (d.pages s)[j]? = some p) :
    p.external.map some = (crossingAt d p).map fun k => d.edges[k]?.map Edge.id := by
  rw [getElem?_pages hk] at hp
  obtain ⟨group, _, rfl⟩ := Option.map_eq_some_iff.1 hp
  change _ = (crossingAt d _).map (Option.map Edge.id ∘ (d.edges[·]?))
  rw [← List.map_map, crossingAt, map_getElem?_positionsOf, ← List.filter_filter,
    ← d.connected_eq_filter, List.map_map]
  simp only [shows_eq]
  exact List.map_map

theorem shows_ofSelection {title : Option String} {total j : Nat} {group : List Nat} {id : String}
    (hr : InRange d.nodes group) :
    (ofSelection s title total j (select d d.connected group)).shows id ↔
      ∃ i ∈ group, ∃ n, d.nodes[i]? = some n ∧ n.id = id := by
  have hn (n : Node α) : n ∈ (select d d.connected group).nodes ↔
      ∃ i ∈ group, d.nodes[i]? = some n := by
    have h := congrArg (some n ∈ ·) (nodes_select (d := d) d.connected group)
    simpa [mem_inOrder hr] using h
  simp only [shows_eq, List.any_eq_true, beq_iff_eq]
  constructor
  · rintro ⟨n, hm, hid⟩
    obtain ⟨i, hi, hin⟩ := (hn n).1 hm
    exact ⟨i, hi, n, hin, hid⟩
  · rintro ⟨i, hi, n, hin, hid⟩
    exact ⟨n, (hn n).2 ⟨i, hi, hin⟩, hid⟩

/-- A node stands on exactly one page. -/
theorem exists_page (hk : d.kind ≠ .sequence) (hd : d.ids.Nodup) {id : String} (hid : id ∈ d.ids) :
    ∃ a, ∀ j, StandsOn (d.pages s) j id ↔ j = a := by
  have hpart := groupsOf_partitions s d
  obtain ⟨n, hn, rfl⟩ := List.mem_map.1 hid
  obtain ⟨i, hi⟩ := List.mem_iff_getElem?.1 hn
  obtain ⟨a, group, ha, hm⟩ := hpart.exists_index (List.getElem?_eq_some_iff.1 hi).1
  refine ⟨a, fun j => ⟨?_, ?_⟩⟩
  · rintro ⟨p, hp, hs⟩
    rw [getElem?_pages hk] at hp
    obtain ⟨group', hj, rfl⟩ := Option.map_eq_some_iff.1 hp
    rw [shows_ofSelection (inRange_of_mem_groupsOf (List.mem_of_getElem? hj))] at hs
    obtain ⟨i', hi', n', hn', hid'⟩ := hs
    have he : i' = i := Diagram.index_unique hd hn' hi hid'
    exact hpart.index_unique hj ha hi' (he ▸ hm)
  · rintro rfl
    refine ⟨_, by rw [getElem?_pages hk, ha]; rfl, ?_⟩
    rw [shows_ofSelection (inRange_of_mem_groupsOf (List.mem_of_getElem? ha))]
    exact ⟨i, hm, n, hi, rfl⟩

/-- How pages account for the edge at a position, given the positions that each of them keeps and
those that lead from it to another. -/
inductive Accounted (pages : List (Page α)) (kept crossing : Nat → List Nat) (k : Nat)
    (e : Edge) : Prop
  | inside (page : Nat) (source : ∀ j, StandsOn pages j e.source ↔ j = page)
      (target : ∀ j, StandsOn pages j e.target ↔ j = page) (keeps : ∀ j, k ∈ kept j ↔ j = page)
      (leads : ∀ j, k ∉ crossing j) : Accounted pages kept crossing k e
  | across (a b : Nat) (apart : a ≠ b) (source : ∀ j, StandsOn pages j e.source ↔ j = a)
      (target : ∀ j, StandsOn pages j e.target ↔ j = b) (keeps : ∀ j, k ∉ kept j)
      (leads : ∀ j, k ∈ crossing j ↔ j = a ∨ j = b) : Accounted pages kept crossing k e

omit [Scalar α] in
def listedBy (list : Page α → List Nat) (pages : List (Page α)) (j : Nat) : List Nat :=
  match pages[j]? with
  | some p => list p
  | none => []

omit [Scalar α] in
theorem mem_listedBy {list : Page α → List Nat} {pages : List (Page α)} {j k : Nat} :
    k ∈ listedBy list pages j ↔ ∃ p, pages[j]? = some p ∧ k ∈ list p := by
  rw [listedBy]
  cases pages[j]? <;> simp

omit [Scalar α] in
theorem mem_listedBy_keptAt {pages : List (Page α)} {j k : Nat} {e : Edge}
    (he : d.edges[k]? = some e) : k ∈ listedBy (keptAt d) pages j ↔
      (StandsOn pages j e.source ∧ StandsOn pages j e.target) ∧ d.joins e := by
  simp only [mem_listedBy, mem_keptAt he, StandsOn]
  cases pages[j]? <;> simp

omit [Scalar α] in
theorem mem_listedBy_crossingAt {pages : List (Page α)} {j k : Nat} {e : Edge}
    (he : d.edges[k]? = some e) : k ∈ listedBy (crossingAt d) pages j ↔
      ¬ (StandsOn pages j e.source ↔ StandsOn pages j e.target) ∧ d.joins e := by
  simp only [mem_listedBy, mem_crossingAt he, StandsOn]
  cases pages[j]? <;> simp

theorem accounted_of_joins (hk : d.kind ≠ .sequence) (hd : d.ids.Nodup) {k : Nat} {e : Edge}
    (he : d.edges[k]? = some e) (hj : d.joins e) :
    Accounted (d.pages s) (listedBy (keptAt d) (d.pages s)) (listedBy (crossingAt d) (d.pages s))
      k e := by
  obtain ⟨hs, ht⟩ := Diagram.joins_iff.1 hj
  obtain ⟨a, ha⟩ := exists_page (s := s) hk hd hs
  obtain ⟨b, hb⟩ := exists_page (s := s) hk hd ht
  have hkept (j : Nat) : k ∈ listedBy (keptAt d) (d.pages s) j ↔ j = a ∧ j = b := by
    rw [mem_listedBy_keptAt he, ha, hb]
    simp [hj]
  have hcross (j : Nat) : k ∈ listedBy (crossingAt d) (d.pages s) j ↔ ¬ (j = a ↔ j = b) := by
    rw [mem_listedBy_crossingAt he, ha, hb]
    simp [hj]
  by_cases hab : a = b
  · subst hab
    exact .inside a ha hb (fun j => by rw [hkept, and_self]) fun j => by simp [hcross]
  · refine .across a b hab ha hb (fun j => ?_) fun j => ?_
    · rw [hkept]
      rintro ⟨rfl, rfl⟩
      exact hab rfl
    · rw [hcross]
      constructor
      · intro h
        by_contra hn
        obtain ⟨hna, hnb⟩ := not_or.1 hn
        exact h (iff_of_false hna hnb)
      · rintro (rfl | rfl) h
        · exact hab (h.1 rfl)
        · exact hab (h.2 rfl).symm

end Page

open Page

/-- Where no two nodes share an identifier, an edge between two nodes is on the one page that shows
both, or on none and named by the two pages that show one of them each; an edge that leads nowhere
is on no page and named by none. Equal edges are told apart by their positions. -/
theorem Diagram.pages_edges_accounted (s : PageSettings α) (d : Diagram α)
    (hk : d.kind ≠ .sequence) (hd : d.ids.Nodup) :
    ∃ kept crossing : Nat → List Nat,
      (∀ j p, (d.pages s)[j]? = some p →
        p.edges.map some = (kept j).map (d.edges[·]?) ∧
        p.external.map some = ((crossing j).map fun k => d.edges[k]?.map Edge.id) ∧
        (kept j).Pairwise (· < ·) ∧ (crossing j).Pairwise (· < ·)) ∧
      ∀ k e, d.edges[k]? = some e →
        (e.source ∈ d.ids ∧ e.target ∈ d.ids → Accounted (d.pages s) kept crossing k e) ∧
        (¬ (e.source ∈ d.ids ∧ e.target ∈ d.ids) → ∀ j, k ∉ kept j ∧ k ∉ crossing j) ∧
        (e.source = e.target → ∀ j, k ∉ crossing j) := by
  refine ⟨listedBy (keptAt d) (d.pages s), listedBy (crossingAt d) (d.pages s), ?_, ?_⟩
  · intro j p hp
    simp only [listedBy, hp]
    exact ⟨edges_of_getElem?_pages hk hp, external_of_getElem?_pages hk hp,
      pairwise_positionsOf _ _, pairwise_positionsOf _ _⟩
  · intro k e he
    refine ⟨fun h => accounted_of_joins hk hd he (joins_iff.2 h), fun h j => ?_, fun h j => ?_⟩
    · have hj := mt joins_iff.1 h
      rw [mem_listedBy_keptAt he, mem_listedBy_crossingAt he]
      exact ⟨fun hm => hj hm.2, fun hm => hj hm.2⟩
    · rw [mem_listedBy_crossingAt he, h]
      exact fun hm => hm.1 Iff.rfl

def Diagram.farApart : Diagram Float32 where
  kind := .generic
  nodes :=
    [⟨"node-1", .generic, 0, 0, 120, 60, "here", none⟩,
      ⟨"node-2", .generic, 9000, 9000, 120, 60, "there", none⟩]
  edges :=
    [⟨"edge-1", "node-2", "node-1", none, none, none⟩,
      ⟨"edge-2", "node-1", "node-1", none, none, none⟩,
      ⟨"edge-3", "node-1", "nobody", none, none, none⟩]
  title := none
  skipped := []
  unresolved := []

theorem Diagram.farApart_edges_accounted :
    Diagram.farApart.kind ≠ .sequence ∧ Diagram.farApart.ids.Nodup ∧
      ∃ kept crossing : Nat → List Nat,
        Accounted (Diagram.farApart.pages .standard) kept crossing 0
          ⟨"edge-1", "node-2", "node-1", none, none, none⟩ ∧ ∀ j, 1 ∉ crossing j := by
  obtain ⟨kept, crossing, _, h⟩ :=
    Diagram.pages_edges_accounted .standard Diagram.farApart (by decide) (by decide)
  exact ⟨by decide, by decide, kept, crossing, (h 0 _ rfl).1 (by decide), (h 1 _ rfl).2.2 rfl⟩

end Drafting
