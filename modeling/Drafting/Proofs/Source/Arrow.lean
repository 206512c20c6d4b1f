import Drafting.Proofs.Source.Sketch

namespace Drafting

structure Arrow where
  source : String
  target : String
  kind : EdgeKind
  label : Option String
  order : Option Nat
deriving DecidableEq

namespace Diagram

variable {α : Type} {d : Diagram α}

def labelOf? (d : Diagram α) (id : String) : Option String := (d.node? id).map Node.label

def arrow? (d : Diagram α) (e : Edge) : Option Arrow := do
  some ⟨← d.labelOf? e.source, ← d.labelOf? e.target, ← e.kind, e.label, e.order⟩

end Diagram

namespace Sketch

def labelAt? (s : Sketch) (i : Nat) : Option String := s.items[i]?.map Item.label

def arrow? (s : Sketch) (t : Tie) : Option Arrow := do
  some ⟨← s.labelAt? t.source, ← s.labelAt? t.target, t.kind, t.label, t.order⟩

variable {α : Type} [Scalar α] {s : Sketch} {kind : DiagramKind} {skipped : List Nat}
  {unresolved : List String} {ids : IdSupply}

section

variable {s' : Sketch} {a : Arrow} {t : Tie} {i : Nat} {name : String}

theorem labelAt?_of_prefix (h : s.items <+: s'.items) (hi : s.labelAt? i = some name) :
    s'.labelAt? i = some name := by
  obtain ⟨item, hitem, rfl⟩ := Option.map_eq_some_iff.1 hi
  obtain ⟨hlt, rfl⟩ := List.getElem?_eq_some_iff.1 hitem
  rw [labelAt?, List.prefix_iff_getElem?.1 h i hlt]
  rfl

/-- A tie goes on to stand for the same arrow when there are more items. -/
theorem arrow?_of_prefix (h : s.items <+: s'.items) (ht : s.arrow? t = some a) :
    s'.arrow? t = some a := by
  simp only [arrow?, Option.bind_eq_bind, Option.bind_eq_some_iff] at ht ⊢
  obtain ⟨source, hsource, target, htarget, ha⟩ := ht
  exact ⟨source, labelAt?_of_prefix h hsource, target, labelAt?_of_prefix h htarget, ha⟩

end

theorem labelOf?_toDiagram {i : Nat} (hi : i < s.items.length) :
    (s.toDiagram kind skipped unresolved ids : Diagram α).labelOf?
        ((ids.take "node" s.items.length).getD i "") = s.labelAt? i := by
  obtain ⟨id, hlocate⟩ := locate?_toDiagram (α := α) hi
  rw [Diagram.labelOf?, Diagram.node?_eq nodup_ids_toDiagram, hlocate, labelAt?,
    List.getElem?_eq_getElem hi]
  rfl

/-- The edges of a diagram stand for what the ties of its sketch stand for. -/
theorem Tied.map_arrow?_edges (h : s.Tied) :
    (s.toDiagram kind skipped unresolved ids : Diagram α).edges.map
        (s.toDiagram kind skipped unresolved ids : Diagram α).arrow? = s.ties.map s.arrow? := by
  refine map_zipWith_of_mem (fun t ht id => ?_) (by simp)
  obtain ⟨hsource, htarget⟩ := h t ht
  rw [Diagram.arrow?, Tie.toEdge, labelOf?_toDiagram hsource, labelOf?_toDiagram htarget, arrow?]
  rfl

end Sketch

end Drafting
