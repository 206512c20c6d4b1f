import Drafting.Proofs.Binary32
import Drafting.Proofs.Source.Mirror

namespace Drafting

theorem labelWidth_pos (n : Nat) {padding low high : Float32}
    (h : padding.isFinite ∧ 0 < low ∧ 0 < high) : 0 < labelWidth n padding low high := by
  obtain ⟨hp, hl, hh⟩ := h
  have hn := Binary32.isNaN_mul (Binary32.isNaN_ofNat n) (y := (8 : Float32)) (by decide +kernel)
    (by decide +kernel)
  exact Binary32.clamp_pos (Binary32.isNaN_add hn hp) hl hh

namespace Sketch

theorem Item.classSize_pos (label : String) (c : Compartments) :
    0 < (classSize label c : Float32 × Float32).1 ∧
      0 < (classSize label c : Float32 × Float32).2 :=
  ⟨labelWidth_pos _ (by decide +kernel), Binary32.greatest_pos (by decide +kernel)⟩

theorem Item.size_pos (kind : DiagramKind) (item : Item) :
    0 < (item.size kind : Float32 × Float32).1 ∧ 0 < (item.size kind : Float32 × Float32).2 := by
  fun_cases item.size (α := Float32) kind with
  | case1 | case2 => exact classSize_pos _ _
  | case9 | case10 => decide +kernel
  | _ =>
    refine ⟨labelWidth_pos _ ?_, ?_⟩
    · decide +kernel
    · dsimp only
      decide +kernel

section

variable {α : Type} [Scalar α] {s : Sketch} {kind : DiagramKind} {skipped : List Nat}
  {unresolved : List String} {ids : IdSupply}

/-- The nodes with the identifier that stands at a position have the kind of the item there. -/
theorem HasKind.exists_node {k : NodeKind} {i : Nat} (h : s.HasKind k i) :
    ∃ n ∈ (s.toDiagram kind skipped unresolved ids : Diagram α).nodes,
      n.id = (ids.take "node" s.items.length).getD i "" ∧ n.kind = k := by
  obtain ⟨item, hi, hk⟩ := h
  have hlt := HasKind.lt ⟨item, hi, hk⟩
  have hid : (ids.take "node" s.items.length)[i]? =
      some ((ids.take "node" s.items.length).getD i "") := by
    rw [List.getD_eq_getElem _ _ (by simpa using hlt)]
    exact List.getElem?_eq_getElem _
  refine ⟨item.toNode kind _, List.mem_of_getElem? (i := i) ?_, rfl, hk⟩
  rw [toDiagram, List.getElem?_zipWith, hi, hid]

end

end Sketch

variable {α : Type} [Scalar α]

/-- Every use case has a name of its own, and so has every actor. Edges lead to use cases, and
inclusions and extensions also begin at one. -/
structure Diagram.RelatesCases (d : Diagram α) : Prop where
  keys : (d.nodes.map fun n => (n.kind, n.label)).Nodup
  targets : ∀ e ∈ d.edges, ∃ n ∈ d.nodes, n.id = e.target ∧ n.kind = .useCase
  sources : ∀ e ∈ d.edges, e.kind = some .inclusion ∨ e.kind = some .extension →
    ∃ n ∈ d.nodes, n.id = e.source ∧ n.kind = .useCase

structure Diagram.WellFormed (d : Diagram α) : Prop where
  inhabited : d.nodes ≠ []
  nodeIds : d.ids.Nodup
  edgeIds : (d.edges.map Edge.id).Nodup
  ends : ∀ e ∈ d.edges, e.source ∈ d.ids ∧ e.target ∈ d.ids
  sizes : ∀ n ∈ d.nodes, 0 < n.width ∧ 0 < n.height
  labels : d.kind ∈ [.flow, .generic, .sequence, .classes] → (d.nodes.map Node.label).Nodup
  cases : d.kind = .useCase → d.RelatesCases

namespace Source

variable {kind : DiagramKind} {lines : List Line} {text : List Char} {ids rest : IdSupply}

theorem tied_read (kind : DiagramKind) (lines : List Line) : (read kind lines).sketch.Tied := by
  cases kind with
  | classes => exact (ClassText.onePerLabel_sketch _).tied
  | sequence => exact (Conversation.onePerLabel_sketch _).tied
  | flow | generic => exact (Flow.onePerLabel_sketch _ _).tied
  | useCase => exact (UseCase.sound_sketch _).tied
  | mindmap => exact Outline.tied_sketch _

theorem nodup_labels_read (h : kind ∈ [.flow, .generic, .sequence, .classes])
    (lines : List Line) : ((read kind lines).sketch.items.map Sketch.Item.label).Nodup := by
  cases kind with
  | classes => exact (ClassText.onePerLabel_sketch _).labels
  | sequence => exact (Conversation.onePerLabel_sketch _).labels
  | flow | generic => exact (Flow.onePerLabel_sketch _ _).labels
  | useCase | mindmap => simp at h

theorem skipped_read_sublist (kind : DiagramKind) (lines : List Line) :
    (read kind lines).skipped.Sublist (lines.map Line.number) := by
  cases kind with
  | classes => exact ClassText.skipped_readFrom_sublist _ lines
  | sequence | flow | generic | useCase | mindmap => exact skipped_readLines_sublist _ lines

theorem relatesCases_toDiagram {s : Sketch} (h : UseCase.Sound s) (kind : DiagramKind)
    (skipped : List Nat) (unresolved : List String) (ids : IdSupply) :
    (s.toDiagram kind skipped unresolved ids : Diagram α).RelatesCases where
  keys := by
    rw [Sketch.map_nodes_toDiagram (u := fun i => (i.kind, i.label)) fun _ _ => rfl]
    exact h.keys
  targets e he := by
    obtain ⟨t, ht, id, rfl⟩ := exists_of_mem_zipWith he
    exact (h.targets t ht).exists_node
  sources e he hk := by
    obtain ⟨t, ht, id, rfl⟩ := exists_of_mem_zipWith he
    exact (h.sources t ht (by simpa [Sketch.Tie.toEdge] using hk)).exists_node

end Source

open Source

/-- Whatever text is read, the diagram is well formed, and the lines that are reported as skipped
come in order and have content. -/
theorem Diagram.wellFormed_of_parseWith (kind : DiagramKind) (text : List Char)
    (ids rest : IdSupply) (d : Diagram Float32) (h : parseWith kind text ids = .ok (d, rest)) :
    d.kind = kind ∧ d.WellFormed ∧ d.skipped.Pairwise (· < ·) ∧
      ∀ number ∈ d.skipped, HasContent (marks kind) text number := by
  obtain ⟨hi, -, rfl⟩ := parseWith_eq_ok h
  have htied := tied_read kind (sourceLines (marks kind) text)
  have hskipped := (skipped_read_sublist kind (sourceLines (marks kind) text)).trans
    ((sourceLines_sublist (marks kind) text).map Line.number)
  refine ⟨rfl, ?_, (pairwise_number_contentLines _ _).sublist hskipped, ?_⟩
  · constructor
    case inhabited => exact Sketch.nodes_toDiagram_ne_nil hi
    case nodeIds =>
      rw [Sketch.ids_toDiagram]
      exact ids.nodup_take _ _
    case edgeIds =>
      rw [Sketch.map_id_edges_toDiagram]
      exact ids.nodup_take _ _
    case ends =>
      intro e he
      rw [Sketch.ids_toDiagram]
      exact htied.ends_mem_ids he
    case sizes =>
      intro n hn
      obtain ⟨item, -, id, rfl⟩ := Sketch.exists_item_of_mem_nodes hn
      exact item.size_pos kind
    case labels =>
      intro hk
      rw [Sketch.map_nodes_toDiagram fun _ _ => rfl]
      exact nodup_labels_read hk _
    case cases =>
      rintro rfl
      exact relatesCases_toDiagram (UseCase.sound_sketch _) _ _ _ _
  · intro number hn
    obtain ⟨l, hl, rfl⟩ := List.mem_map.1 (hskipped.subset hn)
    exact hasContent_of_mem_contentLines hl

def Source.linkAndRelation : List Char :=
  "Clerk -> (Fetch mail)\n\n% who?\n(Fetch mail) ..> (Sign) : <<include>>".toList

def Diagram.linkAndRelation : Diagram Float32 where
  kind := .useCase
  nodes :=
    [⟨"node-1", .actor, 0, 0, 80, 100, "Clerk", none⟩,
      ⟨"node-2", .useCase, 0, 0, 140, 60, "Fetch mail", none⟩,
      ⟨"node-3", .useCase, 0, 0, 140, 60, "Sign", none⟩]
  edges :=
    [⟨"edge-1", "node-1", "node-2", none, some .association, none⟩,
      ⟨"edge-2", "node-2", "node-3", some "<<include>>", some .inclusion, none⟩]
  title := none
  skipped := [3]
  unresolved := []

theorem Diagram.linkAndRelation_wellFormed :
    ∃ rest, parseWith .useCase Source.linkAndRelation .fresh = .ok (Diagram.linkAndRelation, rest) ∧
      Diagram.linkAndRelation.kind = .useCase ∧ Diagram.linkAndRelation.WellFormed ∧
      Diagram.linkAndRelation.skipped.Pairwise (· < ·) ∧
      ∀ number ∈ Diagram.linkAndRelation.skipped,
        HasContent (marks .useCase) Source.linkAndRelation number :=
  ⟨_, rfl, Diagram.wellFormed_of_parseWith .useCase Source.linkAndRelation .fresh _ _ rfl⟩

end Drafting
