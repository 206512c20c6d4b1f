import Mathlib.Tactic.Linarith
import Drafting.Proofs.Exact
import Drafting.Proofs.Source.Mirror

namespace Drafting

variable {K : Type} [Field K] [LinearOrder K] [FloorSemiring K]

/-- Actors of one height, and messages between them in the rows from zero on. -/
structure Diagram.IsConversation (d : Diagram K) : Prop where
  kind : d.kind = .sequence
  inhabited : d.nodes ≠ []
  sizes : ∀ n ∈ d.nodes, 100 ≤ n.width ∧ n.height = 50
  named : (d.edges.map Edge.id).Nodup
  rows : d.edges.map Edge.order = (List.range d.edges.length).map some
  joined : ∀ e ∈ d.edges, d.joins e

theorem Sketch.Item.size_actor [IsStrictOrderedRing K] (item : Sketch.Item) :
    100 ≤ (item.size .sequence : K × K).1 ∧ (item.size .sequence : K × K).2 = 50 :=
  ⟨Scalar.le_clamp (by norm_num) _, rfl⟩

namespace Source

open Conversation

variable {text : List Char} {ids rest : IdSupply} {d : Diagram K}

theorem eq_toDiagram_of_parseWith
    (h : parseWith .sequence text ids = .ok (d, rest)) :
    ∃ statements skipped, statements.length ≤ text.length ∧ (sketch statements).items ≠ [] ∧
      d = (sketch statements).toDiagram .sequence skipped [] ids := by
  obtain ⟨hi, -, hd⟩ := parseWith_eq_ok h
  refine ⟨_, _, ?_, hi, hd⟩
  exact (List.length_filterMap_le _ _).trans (length_sourceLines_le _ _)

theorem isConversation_of_parseWith [IsStrictOrderedRing K]
    (h : parseWith .sequence text ids = .ok (d, rest)) :
    d.IsConversation := by
  obtain ⟨statements, skipped, -, hi, rfl⟩ := eq_toDiagram_of_parseWith h
  have hs := sound_sketch statements
  constructor
  case kind => rfl
  case inhabited => exact Sketch.nodes_toDiagram_ne_nil hi
  case sizes =>
    intro n hn
    obtain ⟨item, -, id, rfl⟩ := Sketch.exists_item_of_mem_nodes hn
    exact item.size_actor
  case named => exact Sketch.nodup_id_edges_toDiagram
  case rows =>
    rw [Sketch.map_order_edges_toDiagram, Sketch.length_edges_toDiagram]
    exact hs.orders
  case joined =>
    intro e he
    rw [Diagram.joins_iff, Sketch.ids_toDiagram]
    exact hs.tied.ends_mem_ids he

theorem length_edges_le_of_parseWith (h : parseWith .sequence text ids = .ok (d, rest)) :
    d.edges.length ≤ text.length := by
  obtain ⟨statements, skipped, hl, -, rfl⟩ := eq_toDiagram_of_parseWith h
  rw [Sketch.length_edges_toDiagram]
  exact (length_ties_sketch_le statements).trans hl

end Source

end Drafting
