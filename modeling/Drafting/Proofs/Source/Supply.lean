import Drafting.Proofs.Source.WellFormed

namespace Drafting

namespace IdSupply

variable {ids rest : IdSupply} {stem : String} {j : Nat}

theorem take_append_take (h : rest.count stem = ids.count stem + j) (k : Nat) :
    ids.take stem j ++ rest.take stem k = ids.take stem (j + k) := by
  rw [take, take, take, h, List.range_add, List.map_append, List.map_map]
  simp only [Function.comp_def, Nat.add_assoc]

theorem ident_ne (m n : Nat) : ident "node" m ≠ ident "edge" n := by
  intro h
  have hlists := congrArg String.toList h
  simp [ident] at hlists

end IdSupply

variable {α : Type}

/-- The nodes and the edges have the next identifiers of a supply, and `rest` is what they leave of
it. -/
structure Diagram.DrawnFrom (d : Diagram α) (ids rest : IdSupply) : Prop where
  nodeIds : d.ids = ids.take "node" d.nodes.length
  edgeIds : d.edges.map Edge.id = ids.take "edge" d.edges.length
  nodes : rest.count "node" = ids.count "node" + d.nodes.length
  edges : rest.count "edge" = ids.count "edge" + d.edges.length
  others : ∀ stem, stem ≠ "node" → stem ≠ "edge" → rest.count stem = ids.count stem

theorem Sketch.drawnFrom_toDiagram [Scalar α] (s : Sketch) (kind : DiagramKind) (skipped : List Nat)
    (unresolved : List String) (ids : IdSupply) :
    (s.toDiagram kind skipped unresolved ids : Diagram α).DrawnFrom ids (s.spend ids) where
  nodeIds := by rw [ids_toDiagram, length_nodes_toDiagram]
  edgeIds := by rw [map_id_edges_toDiagram, length_edges_toDiagram]
  nodes := by rw [count_node_spend, length_nodes_toDiagram]
  edges := by rw [count_edge_spend, length_edges_toDiagram]
  others _ := s.count_spend_of_ne ids

namespace Source

structure AccountedFor (ds : List (Diagram α)) (ids last : IdSupply) : Prop where
  nodeIds : ds.flatMap Diagram.ids = ids.take "node" (ds.flatMap Diagram.nodes).length
  edgeIds : (ds.flatMap Diagram.edges).map Edge.id =
    ids.take "edge" (ds.flatMap Diagram.edges).length
  nodes : last.count "node" = ids.count "node" + (ds.flatMap Diagram.nodes).length
  edges : last.count "edge" = ids.count "edge" + (ds.flatMap Diagram.edges).length
  others : ∀ stem, stem ≠ "node" → stem ≠ "edge" → last.count stem = ids.count stem

namespace AccountedFor

variable {ds : List (Diagram α)} {d : Diagram α} {ids rest last : IdSupply}

theorem nil (ids : IdSupply) : AccountedFor ([] : List (Diagram α)) ids ids :=
  ⟨rfl, rfl, rfl, rfl, fun _ _ _ => rfl⟩

theorem cons (h : AccountedFor ds rest last) (hd : d.DrawnFrom ids rest) :
    AccountedFor (d :: ds) ids last where
  nodeIds := by
    rw [List.flatMap_cons, h.nodeIds, hd.nodeIds, IdSupply.take_append_take hd.nodes,
      List.flatMap_cons, List.length_append]
  edgeIds := by
    rw [List.flatMap_cons, List.map_append, h.edgeIds, hd.edgeIds,
      IdSupply.take_append_take hd.edges, List.length_append]
  nodes := by
    rw [h.nodes, hd.nodes, List.flatMap_cons, List.length_append, Nat.add_assoc]
  edges := by
    rw [h.edges, hd.edges, List.flatMap_cons, List.length_append, Nat.add_assoc]
  others stem hn he := (h.others stem hn he).trans (hd.others stem hn he)

theorem nodup (h : AccountedFor ds ids last) :
    (ds.flatMap Diagram.ids ++ (ds.flatMap Diagram.edges).map Edge.id).Nodup := by
  rw [h.nodeIds, h.edgeIds]
  refine (ids.nodup_take _ _).append (ids.nodup_take _ _) fun id hn he => ?_
  obtain ⟨m, -, rfl⟩ := List.mem_map.1 hn
  obtain ⟨n, -, hmn⟩ := List.mem_map.1 he
  exact IdSupply.ident_ne _ _ hmn.symm

end AccountedFor

variable [Scalar α]

/-- The diagrams of the documents that can be read, in order, and what is left of the supply that
all of the documents draw from. -/
def parseAll : List (DiagramKind × List Char) → IdSupply → List (Diagram α) × IdSupply
  | [], ids => ([], ids)
  | (kind, text) :: docs, ids =>
      let (result, rest) := parseFrom kind text ids
      let (ds, last) := parseAll docs rest
      (result.toOption.toList ++ ds, last)

section

variable {kind : DiagramKind} {text : List Char} {ids rest : IdSupply} {d : Diagram α}

theorem drawnFrom_of_parseFrom (h : parseFrom kind text ids = (.ok d, rest)) :
    d.DrawnFrom ids rest := by
  rw [parseFrom_eq, Prod.mk.injEq] at h
  obtain ⟨hd, rfl⟩ := h
  split at hd
  · cases hd
  split at hd
  · cases hd
  · cases hd
    exact Sketch.drawnFrom_toDiagram ..

theorem rest_eq_of_parseFrom {e : ReadError}
    (h : (parseFrom kind text ids : Except _ (Diagram α) × _) = (.error e, rest)) :
    rest = ids := by
  have hi : (read kind (sourceLines (marks kind) text)).sketch.items = [] := by
    rw [parseFrom_eq, Prod.mk.injEq] at h
    by_contra hi
    have hlines : sourceLines (marks kind) text ≠ [] := fun hl => hi (hl ▸ items_read_nil kind)
    rw [if_neg (mt List.isEmpty_iff.1 hlines), if_neg (mt List.isEmpty_iff.1 hi)] at h
    cases h.1
  have ht := (tied_read kind _).ties_eq_nil hi
  rw [parseFrom_eq, Prod.mk.injEq] at h
  rw [← h.2, Sketch.spend, hi, ht]
  simp

end

theorem accountedFor_parseAll (docs : List (DiagramKind × List Char)) (ids : IdSupply) :
    AccountedFor (parseAll (α := α) docs ids).1 ids (parseAll (α := α) docs ids).2 := by
  induction docs generalizing ids with
  | nil => exact .nil ids
  | cons doc docs ih =>
      obtain ⟨kind, text⟩ := doc
      rw [parseAll]
      cases h : (parseFrom kind text ids : Except ReadError (Diagram α) × IdSupply) with
      | mk result rest =>
          cases result with
          | error e =>
              obtain rfl := rest_eq_of_parseFrom h
              exact ih rest
          | ok d => exact (ih rest).cons (drawnFrom_of_parseFrom h)

/-- A reading that fails leaves the supply as it was, and one that succeeds draws as many
identifiers as there are nodes and edges, which have them in order. So however many documents share
a supply, no identifier is used twice and none is left out. -/
theorem parseFrom_accountedFor (α : Type) [Scalar α] (docs : List (DiagramKind × List Char))
    (ids : IdSupply) :
    (∀ kind text (ids : IdSupply),
      match (parseFrom kind text ids : Except ReadError (Diagram α) × IdSupply) with
      | (.error _, rest) => rest = ids
      | (.ok d, rest) => d.DrawnFrom ids rest) ∧
      let (ds, last) := parseAll (α := α) docs ids
      AccountedFor ds ids last ∧
        (ds.flatMap Diagram.ids ++ (ds.flatMap Diagram.edges).map Edge.id).Nodup := by
  refine ⟨fun kind text ids => ?_, accountedFor_parseAll docs ids,
    (accountedFor_parseAll docs ids).nodup⟩
  split
  next h => exact rest_eq_of_parseFrom h
  next h => exact drawnFrom_of_parseFrom h

/-- The second document has nothing to draw, and the third goes on where the first stopped. -/
example :
    let docs : List (DiagramKind × List Char) :=
      [(.flow, "a -> b".toList), (.flow, "%% a".toList), (.mindmap, "root\n  leaf".toList)]
    ((parseAll docs .fresh).1 : List (Diagram Float32)).map Diagram.ids =
      [["node-1", "node-2"], ["node-3", "node-4"]] := rfl

end Source

end Drafting
