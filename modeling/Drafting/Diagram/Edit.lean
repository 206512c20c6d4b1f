import Drafting.Diagram

namespace Drafting

variable {α : Type}

def replaceFirst? {β : Type} (p : β → Bool) (f : β → β) : List β → Option (List β)
  | [] => none
  | b :: bs => if p b then some (f b :: bs) else (replaceFirst? p f bs).map (b :: ·)

theorem replaceFirst?_eq_none {β : Type} {p : β → Bool} {f : β → β} {bs : List β} :
    replaceFirst? p f bs = none ↔ ∀ b ∈ bs, p b = false := by
  induction bs with
  | nil => simp [replaceFirst?]
  | cons b bs ih => cases h : p b <;> simp [replaceFirst?, h, ih]

theorem length_of_replaceFirst? {β : Type} {p : β → Bool} {f : β → β} {bs cs : List β}
    (h : replaceFirst? p f bs = some cs) : cs.length = bs.length := by
  induction bs generalizing cs with
  | nil => simp [replaceFirst?] at h
  | cons b bs ih =>
      simp only [replaceFirst?] at h
      split at h
      · cases h
        rfl
      · obtain ⟨ds, hd, rfl⟩ := Option.map_eq_some_iff.1 h
        simp [ih hd]

def Node.ofSize [Scalar α] (id : String) (kind : NodeKind) (label : String) (width height : α) :
    Node α :=
  ⟨id, kind, 0, 0, width, height, label, none⟩

namespace Diagram

def addNode (n : Node α) (d : Diagram α) : Diagram α := { d with nodes := d.nodes ++ [n] }

def addEdge (e : Edge) (d : Diagram α) : Diagram α := { d with edges := d.edges ++ [e] }

def removeNode (id : String) (d : Diagram α) : Diagram α :=
  { d with nodes := d.nodes.filter (·.id != id) }

def reverseEdges (d : Diagram α) : Diagram α := { d with edges := d.edges.reverse }

def changeNode? (id : String) (f : Node α → Node α) (d : Diagram α) : Option (Diagram α) :=
  (replaceFirst? (·.id == id) f d.nodes).map fun nodes => { d with nodes }

@[simp] theorem reverseEdges_reverseEdges (d : Diagram α) :
    d.reverseEdges.reverseEdges = d := by
  simp [reverseEdges]

theorem node?_removeNode (id : String) (d : Diagram α) : (d.removeNode id).node? id = none := by
  simp [node?, removeNode]

end Diagram

end Drafting
