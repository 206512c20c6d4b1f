import Mathlib.Data.List.GetD
import Drafting.Proofs.Ids
import Drafting.Proofs.Link
import Drafting.Proofs.Partition
import Drafting.Proofs.Source.Reading

namespace Drafting

namespace Sketch

section

variable (s : Sketch) (isSame : Item → Bool) (item : Item)

theorem length_le_ensure : s.items.length ≤ (s.ensure isSame item).1.items.length := by
  rw [ensure]
  cases s.items.findIdx? isSame <;> simp

theorem ties_ensure : (s.ensure isSame item).1.ties = s.ties := by
  rw [ensure]
  cases s.items.findIdx? isSame <;> rfl

theorem ensure_lt : (s.ensure isSame item).2 < (s.ensure isSame item).1.items.length := by
  rw [ensure]
  cases h : s.items.findIdx? isSame with
  | none => simp
  | some i => exact (List.findIdx?_eq_some_iff_findIdx_eq.1 h).1

theorem ensure_lt_ensure (isSame' : Item → Bool) (item' : Item) :
    (s.ensure isSame item).2 < ((s.ensure isSame item).1.ensure isSame' item').1.items.length :=
  (s.ensure_lt isSame item).trans_le ((s.ensure isSame item).1.length_le_ensure isSame' item')

end

def Tied (s : Sketch) : Prop :=
  ∀ t ∈ s.ties, t.source < s.items.length ∧ t.target < s.items.length

theorem Tied.ensure {s : Sketch} (h : s.Tied) (isSame : Item → Bool) (item : Item) :
    (s.ensure isSame item).1.Tied := by
  intro t ht
  rw [ties_ensure] at ht
  have hle := s.length_le_ensure isSame item
  exact (h t ht).imp (Nat.lt_of_lt_of_le · hle) (Nat.lt_of_lt_of_le · hle)

theorem Tied.tie {s : Sketch} (h : s.Tied) {t : Tie} (hs : t.source < s.items.length)
    (ht : t.target < s.items.length) : (s.tie t).Tied := by
  intro u hu
  rcases List.mem_append.1 hu with hu | hu
  · exact h u hu
  · rw [List.mem_singleton.1 hu]
    exact ⟨hs, ht⟩

theorem Tied.ties_eq_nil {s : Sketch} (h : s.Tied) (hi : s.items = []) : s.ties = [] := by
  refine List.eq_nil_iff_forall_not_mem.2 fun t ht => ?_
  have hlt := (h t ht).1
  simp [hi] at hlt

section

variable {α β : Type} [Scalar α] {s : Sketch} {kind : DiagramKind} {skipped : List Nat}
  {unresolved : List String} {ids : IdSupply}

theorem map_nodes_toDiagram {v : Node α → β} {u : Item → β}
    (h : ∀ item id, v (item.toNode kind id) = u item) :
    (s.toDiagram kind skipped unresolved ids).nodes.map v = s.items.map u :=
  map_zipWith_left h (by simp)

theorem nodes_toDiagram_ne_nil (h : s.items ≠ []) :
    (s.toDiagram kind skipped unresolved ids : Diagram α).nodes ≠ [] := by
  simpa [toDiagram, ← List.length_eq_zero_iff] using h

theorem ids_toDiagram :
    (s.toDiagram kind skipped unresolved ids : Diagram α).ids = ids.take "node" s.items.length := by
  rw [← List.map_id (ids.take _ _)]
  refine map_zipWith_right (fun _ _ => rfl) ?_
  simp

theorem nodup_ids_toDiagram :
    (s.toDiagram kind skipped unresolved ids : Diagram α).ids.Nodup := by
  rw [ids_toDiagram]
  exact ids.nodup_take _ _

/-- An item is found by the identifier that its node is given. -/
theorem locate?_toDiagram {i : Nat} (hi : i < s.items.length) :
    ∃ id, (s.toDiagram kind skipped unresolved ids : Diagram α).locate?
      ((ids.take "node" s.items.length).getD i "") = some ⟨i, s.items[i].toNode kind id⟩ := by
  have hlt : i < (ids.take "node" s.items.length).length := by simpa using hi
  refine ⟨(ids.take "node" s.items.length)[i],
    (Diagram.locate?_eq_some_iff nodup_ids_toDiagram).2 ⟨?_, ?_⟩⟩
  · exact List.getElem?_zipWith_eq_some.2
      ⟨_, _, List.getElem?_eq_getElem hi, List.getElem?_eq_getElem hlt, rfl⟩
  · exact (List.getD_eq_getElem _ _ hlt).symm

theorem map_id_edges_toDiagram :
    (s.toDiagram kind skipped unresolved ids : Diagram α).edges.map Edge.id =
      ids.take "edge" s.ties.length := by
  rw [← List.map_id (ids.take _ _)]
  refine map_zipWith_right (fun _ _ => rfl) ?_
  simp

theorem nodup_id_edges_toDiagram :
    ((s.toDiagram kind skipped unresolved ids : Diagram α).edges.map Edge.id).Nodup := by
  rw [map_id_edges_toDiagram]
  exact ids.nodup_take _ _

theorem map_order_edges_toDiagram :
    (s.toDiagram kind skipped unresolved ids : Diagram α).edges.map Edge.order =
      s.ties.map Tie.order := by
  refine map_zipWith_left (fun _ _ => rfl) ?_
  simp

theorem length_nodes_toDiagram :
    (s.toDiagram kind skipped unresolved ids : Diagram α).nodes.length = s.items.length := by
  simp [toDiagram]

theorem length_edges_toDiagram :
    (s.toDiagram kind skipped unresolved ids : Diagram α).edges.length = s.ties.length := by
  simp [toDiagram]

theorem exists_item_of_mem_nodes {n : Node α}
    (hn : n ∈ (s.toDiagram kind skipped unresolved ids).nodes) :
    ∃ item ∈ s.items, ∃ id, n = item.toNode kind id :=
  exists_of_mem_zipWith hn

theorem Tied.ends_mem_ids (h : s.Tied) {e : Edge}
    (he : e ∈ (s.toDiagram kind skipped unresolved ids : Diagram α).edges) :
    e.source ∈ ids.take "node" s.items.length ∧ e.target ∈ ids.take "node" s.items.length := by
  obtain ⟨t, hm, id, rfl⟩ := exists_of_mem_zipWith he
  obtain ⟨hs, ht⟩ := h t hm
  have hmem {i : Nat} (hi : i < s.items.length) :
      (ids.take "node" s.items.length).getD i "" ∈ ids.take "node" s.items.length := by
    rw [List.getD_eq_getElem _ _ (by simpa using hi)]
    exact List.getElem_mem _
  exact ⟨hmem hs, hmem ht⟩

end

theorem count_node_spend (s : Sketch) (ids : IdSupply) :
    (s.spend ids).count "node" = ids.count "node" + s.items.length := by
  rw [spend, IdSupply.count_advance_of_ne _ _ (by decide), IdSupply.count_advance]

theorem count_edge_spend (s : Sketch) (ids : IdSupply) :
    (s.spend ids).count "edge" = ids.count "edge" + s.ties.length := by
  rw [spend, IdSupply.count_advance, IdSupply.count_advance_of_ne _ _ (by decide)]

theorem count_spend_of_ne (s : Sketch) (ids : IdSupply) {stem : String} (hn : stem ≠ "node")
    (he : stem ≠ "edge") : (s.spend ids).count stem = ids.count stem := by
  rw [spend, IdSupply.count_advance_of_ne _ _ he, IdSupply.count_advance_of_ne _ _ hn]

end Sketch

end Drafting
