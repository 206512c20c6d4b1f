import Drafting.Diagram.Ids
import Drafting.Source.Item
import Drafting.Source.Line

namespace Drafting

variable {α : Type}

structure Draft (α : Type) where
  nodes : List (Node α)
  edges : List Edge
  title : Option String
  ids : IdSupply
  row : Nat
  stack : List (Nat × Nat)
  parents : List (Option Nat)

namespace Draft

def start (ids : IdSupply) : Draft α := ⟨[], [], none, ids, 0, [], []⟩

def titled (d : Draft α) (title : String) : Draft α := { d with title := some title }

def add (d : Draft α) (node : String → Node α) : Draft α × String :=
  let (id, ids) := d.ids.next "node"
  ({ d with nodes := d.nodes ++ [node id], ids }, id)

def ensure (d : Draft α) (isSame : Node α → Bool) (node : String → Node α) : Draft α × String :=
  match d.nodes.find? isSame with
  | some n => (d, n.id)
  | none => d.add node

def connect (d : Draft α) (source target : String) (kind : EdgeKind) (label : Option String)
    (order : Option Nat) : Draft α :=
  let (id, ids) := d.ids.next "edge"
  { d with edges := d.edges ++ [⟨id, source, target, label, some kind, order⟩], ids }

end Draft

structure Pass (α : Type) where
  draft : Draft α
  skipped : List Nat

namespace Pass

def start (ids : IdSupply) : Pass α := ⟨.start ids, []⟩

def skip (p : Pass α) (line : Source.Line) : Pass α :=
  { p with skipped := p.skipped ++ [line.number] }

end Pass

end Drafting
