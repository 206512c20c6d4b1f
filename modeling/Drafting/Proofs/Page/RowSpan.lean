import Mathlib.Algebra.Group.Nat.Defs
import Drafting.Proofs.Page.Conversation

namespace Drafting

namespace Page.Conversation

section

variable {first last row : Nat}

/-- There is no row behind the row, since counting on from it leaves the words. -/
def Overruns (row : Nat) : Prop := (UInt64.ofNat row).toBitVec.uaddOverflow (1 : UInt64).toBitVec

theorem overruns_iff (h : row < 2 ^ 64) : Overruns row ↔ row = 2 ^ 64 - 1 := by
  simp [Overruns, BitVec.uaddOverflow]
  omega

theorem rowSpan_of_overruns (hl : last < 2 ^ 64) (h : Overruns last) : rowSpan first last = 0 := by
  rw [overruns_iff hl] at h
  subst h
  simp [rowSpan]

theorem rowSpan_of_not_overruns (hf : first ≤ last) (hl : last < 2 ^ 64) (h : ¬ Overruns last) :
    rowSpan first last = last - first + 1 := by
  rw [overruns_iff hl] at h
  rw [rowSpan, UInt64.toNat_add, UInt64.toNat_ofNat', UInt64.toNat_ofNat']
  have : (1 : UInt64).toNat = 1 := rfl
  omega

theorem rowSpan_eq_iff (hf : first ≤ last) (hl : last < 2 ^ 64) :
    rowSpan first last = last - first + 1 ↔ ¬ Overruns last := by
  refine ⟨fun hs ho => ?_, rowSpan_of_not_overruns hf hl⟩
  rw [rowSpan_of_overruns hl ho] at hs
  omega

end

section

variable {run : List (Edge × Nat)}

def rowOf (m : Edge × Nat) : Nat := m.1.rowAt m.2

def firstRow (run : List (Edge × Nat)) : Nat := (run.head?.map rowOf).getD 0

def lastRow (run : List (Edge × Nat)) : Nat := (run.getLast?.map rowOf).getD 0

theorem rowOf_le_lastRow (hs : run.Pairwise fun p q => rowOf p ≤ rowOf q) {m : Edge × Nat}
    (hm : m ∈ run) : rowOf m ≤ lastRow run := by
  rcases List.eq_nil_or_concat' run with rfl | ⟨run, l, rfl⟩
  · cases hm
  · have hlast : lastRow (run ++ [l]) = rowOf l := by simp [lastRow]
    rw [hlast]
    rcases List.mem_append.1 hm with hm | hm
    · exact (List.pairwise_append.1 hs).2.2 m hm l List.mem_cons_self
    · rw [List.mem_singleton.1 hm]

theorem firstRow_le_lastRow (hs : run.Pairwise fun p q => rowOf p ≤ rowOf q) :
    firstRow run ≤ lastRow run := by
  cases run with
  | nil => exact le_rfl
  | cons m run => exact rowOf_le_lastRow hs List.mem_cons_self

theorem lastRow_eq_zero_or_mem (run : List (Edge × Nat)) :
    lastRow run = 0 ∨ ∃ m ∈ run, lastRow run = rowOf m := by
  rw [lastRow]
  cases h : run.getLast? with
  | none => exact .inl rfl
  | some m => exact .inr ⟨m, List.mem_of_getLast? h, rfl⟩

theorem lastRow_lt (hw : ∀ m ∈ run, rowOf m < 2 ^ 64) : lastRow run < 2 ^ 64 := by
  rcases lastRow_eq_zero_or_mem run with h | ⟨m, hm, h⟩
  · omega
  · exact h ▸ hw m hm

/-- Counting leaves the words on some page exactly if a message stands in the last row. -/
theorem exists_overruns_iff {pages : List (List (Edge × Nat))}
    (hs : ∀ run ∈ pages, run.Pairwise fun m l => rowOf m ≤ rowOf l)
    (hw : ∀ m ∈ pages.flatten, rowOf m < 2 ^ 64) :
    (∃ run ∈ pages, Overruns (lastRow run)) ↔ ∃ m ∈ pages.flatten, rowOf m = 2 ^ 64 - 1 := by
  have hword {run : List (Edge × Nat)} (hr : run ∈ pages) : lastRow run < 2 ^ 64 :=
    lastRow_lt fun m hm => hw m (List.mem_flatten.2 ⟨run, hr, hm⟩)
  constructor
  · rintro ⟨run, hr, ho⟩
    rw [overruns_iff (hword hr)] at ho
    rcases lastRow_eq_zero_or_mem run with h | ⟨m, hm, h⟩
    · omega
    · exact ⟨m, List.mem_flatten.2 ⟨run, hr, hm⟩, h ▸ ho⟩
  · rintro ⟨m, hm, hrow⟩
    obtain ⟨run, hr, hm⟩ := List.mem_flatten.1 hm
    have hle := rowOf_le_lastRow (hs run hr) hm
    have hlt := hword hr
    exact ⟨run, hr, (overruns_iff hlt).2 (by omega)⟩

end

variable {α : Type}

def placed (l : Link α) : Edge × Nat := (l.edge, l.position)

theorem map_placed_spoken_perm (d : Diagram α) :
    ((spoken d).map placed).Perm
      (d.edges.zipIdx.filter fun m => decide (m.1.source ∈ d.ids ∧ m.1.target ∈ d.ids)) := by
  simp only [← Diagram.joins_eq_decide]
  rw [← Diagram.map_edge_position_links]
  exact (spoken_perm d).map _

variable [Scalar α] {d : Diagram α} {s : PageSettings α}

def spanning (s : PageSettings α) (header : Rect α) (first rows : Nat) : Rect α :=
  ⟨header.x, header.y + (first : α) * s.pixelsPerMessage, header.width,
    Scalar.greatest (frameHeight + (rows : α) * s.pixelsPerMessage) header.height⟩

theorem frameOf_eq_spanning (s : PageSettings α) (header : Rect α) (run : List (Link α)) :
    (frameOf s header (run.map .ofLink)).2 = spanning s header (firstRow (run.map placed))
      (rowSpan (firstRow (run.map placed)) (lastRow (run.map placed))) := by
  cases run with
  | nil => rfl
  | cons l run =>
      obtain ⟨m, hm⟩ : ∃ m, (l :: run).getLast? = some m :=
        ⟨_, List.getLast?_eq_some_getLast (List.cons_ne_nil l run)⟩
      rw [frameOf, firstRow, lastRow, List.head?_map, List.head?_map, List.getLast?_map,
        List.getLast?_map, hm]
      rfl

def dealt (s : PageSettings α) (d : Diagram α) : List (List (Edge × Nat)) :=
  (runs s d).map (List.map placed)

theorem flatten_dealt (s : PageSettings α) (d : Diagram α) :
    (dealt s d).flatten = (spoken d).map placed := by
  rw [dealt, ← List.map_flatten, flatten_runs]

theorem pairwise_flatten_dealt (s : PageSettings α) (d : Diagram α) :
    (dealt s d).flatten.Pairwise fun m l => toLex (rowOf m, m.2) < toLex (rowOf l, l.2) := by
  rw [flatten_dealt]
  exact List.pairwise_map.2 (pairwise_spoken d)

theorem pairwise_rowOf {run : List (Edge × Nat)} (h : run ∈ dealt s d) :
    run.Pairwise fun m l => rowOf m ≤ rowOf l :=
  ((List.pairwise_flatten.1 (pairwise_flatten_dealt s d)).1 run h).imp fun hlt =>
    (Prod.Lex.toLex_le_toLex.1 hlt.le).elim le_of_lt fun he => he.1.le

end Page.Conversation

open Page.Conversation

variable {α : Type} [Scalar α]

/-- The frame of every page of a conversation begins at the row of its first message. It has room
for all rows from there to the last message, unless that stands in the last row of all: there, and
only there, counting leaves the words, and the frame has room for none. -/
theorem Page.conversation_frames_rowSpan (s : PageSettings α) (d : Diagram α)
    (hw : ∀ m ∈ d.edges.zipIdx, rowOf m < 2 ^ 64) :
    ∃ pages : List (List (Edge × Nat)),
      pages.flatten.Perm
        (d.edges.zipIdx.filter fun m => decide (m.1.source ∈ d.ids ∧ m.1.target ∈ d.ids)) ∧
      (pages.flatten.Pairwise fun m l => toLex (rowOf m, m.2) < toLex (rowOf l, l.2)) ∧
      List.Forall₂ (fun sel run => sel.edges = run.map Prod.fst ∧
          sel.frame = spanning s (d.extent.getD .zero) (firstRow run)
            (rowSpan (firstRow run) (lastRow run)))
        (conversation s d) pages ∧
      (∀ run ∈ pages, firstRow run ≤ lastRow run ∧
        (rowSpan (firstRow run) (lastRow run) = lastRow run - firstRow run + 1 ↔
          ¬ Overruns (lastRow run)) ∧
        (Overruns (lastRow run) ↔ lastRow run = 2 ^ 64 - 1) ∧
        (Overruns (lastRow run) → rowSpan (firstRow run) (lastRow run) = 0)) ∧
      ((∃ run ∈ pages, Overruns (lastRow run)) ↔
        ∃ m ∈ d.edges.zipIdx, (m.1.source ∈ d.ids ∧ m.1.target ∈ d.ids) ∧
          rowOf m = 2 ^ 64 - 1) := by
  have hperm : (dealt s d).flatten.Perm _ :=
    (List.Perm.of_eq (flatten_dealt s d)).trans (map_placed_spoken_perm d)
  have hword : ∀ m ∈ (dealt s d).flatten, rowOf m < 2 ^ 64 := fun m hm =>
    hw m (List.mem_filter.1 (hperm.mem_iff.1 hm)).1
  have hlast {run : List (Edge × Nat)} (hr : run ∈ dealt s d) : lastRow run < 2 ^ 64 :=
    lastRow_lt fun m hm => hword m (List.mem_flatten.2 ⟨run, hr, hm⟩)
  refine ⟨dealt s d, hperm, pairwise_flatten_dealt s d, ?_, fun run hr => ?_, ?_⟩
  · rw [conversation_eq_map_runs, dealt, List.forall₂_map_left_iff, List.forall₂_map_right_iff,
      List.forall₂_same]
    intro run hr
    refine ⟨?_, frameOf_eq_spanning s _ run⟩
    rw [edges_ofRun hr, List.map_map]
    rfl
  · have hle := firstRow_le_lastRow (pairwise_rowOf hr)
    exact ⟨hle, rowSpan_eq_iff hle (hlast hr), overruns_iff (hlast hr),
      rowSpan_of_overruns (hlast hr)⟩
  · rw [exists_overruns_iff (fun run => pairwise_rowOf) hword]
    simp only [hperm.mem_iff, List.mem_filter, decide_eq_true_eq, and_assoc]

def Diagram.lastRowMessage : Diagram Float32 where
  kind := .sequence
  nodes :=
    [⟨"node-1", .actor, 40, 40, 100, 50, "Ann", none⟩,
      ⟨"node-2", .actor, 200, 40, 100, 50, "Bob", none⟩]
  edges := [⟨"edge-1", "node-1", "node-2", some "bye", some .sync, some (2 ^ 64 - 1)⟩]
  title := none
  skipped := []
  unresolved := []

theorem Page.lastRowMessage_overruns :
    (∀ m ∈ Diagram.lastRowMessage.edges.zipIdx, rowOf m < 2 ^ 64) ∧
      ∃ pages : List (List (Edge × Nat)),
        List.Forall₂ (fun sel run => sel.edges = run.map Prod.fst ∧
            sel.frame = spanning .standard (Diagram.lastRowMessage.extent.getD .zero) (firstRow run)
              (rowSpan (firstRow run) (lastRow run)))
          (conversation .standard Diagram.lastRowMessage) pages ∧
        ∃ run ∈ pages, Overruns (lastRow run) ∧ rowSpan (firstRow run) (lastRow run) = 0 := by
  have hw : ∀ m ∈ Diagram.lastRowMessage.edges.zipIdx, rowOf m < 2 ^ 64 := by decide
  obtain ⟨pages, -, -, hframes, hspans, hover⟩ :=
    Page.conversation_frames_rowSpan .standard Diagram.lastRowMessage hw
  obtain ⟨run, hr, ho⟩ := hover.2 ⟨_, List.mem_cons_self, by decide, rfl⟩
  exact ⟨hw, pages, hframes, run, hr, ho, (hspans run hr).2.2.2 ho⟩

/-- The only message of the page stands in its first and in its last row, and still the frame has
room for none. -/
theorem Page.lastRowMessage_rowSpan :
    (conversation .standard Diagram.lastRowMessage).map (fun sel => (sel.edges, sel.frame.height)) =
        [(Diagram.lastRowMessage.edges, 200)] ∧
      Overruns (2 ^ 64 - 1) ∧
      rowSpan (2 ^ 64 - 1) (2 ^ 64 - 1) ≠ (2 ^ 64 - 1) - (2 ^ 64 - 1) + 1 ∧
      (spanning .standard (Diagram.lastRowMessage.extent.getD .zero) (2 ^ 64 - 1) 1).height =
        250 := by
  have hmessages : messages Diagram.lastRowMessage = [⟨2 ^ 64 - 1, 0⟩] := by
    rw [messages,
      show Diagram.lastRowMessage.links.map Message.ofLink = [⟨2 ^ 64 - 1, 0⟩] by decide +kernel,
      List.mergeSort_singleton]
  refine ⟨?_, ?_, ?_, ?_⟩
  · rw [conversation, hmessages, deal, dif_neg (by decide +kernel), deal]
    decide +kernel
  · rw [Overruns]
    decide
  · decide
  · decide +kernel

end Drafting
