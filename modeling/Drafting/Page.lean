import Drafting.Page.ActorGroups
import Drafting.Page.Conversation
import Drafting.Page.Units

namespace Drafting

open Scalar

structure Page (α : Type) where
  number : Nat
  total : Nat
  title : String
  viewBox : Rect α
  nodes : List (Node α)
  edges : List Edge
  external : List String

namespace Page

variable {α : Type} [Scalar α]

structure Selection (α : Type) where
  frame : Rect α
  shift : α
  nodes : List (Node α)
  edges : List Edge
  external : List String

def select (d : Diagram α) (connected : List Edge) (group : List Nat) : Selection α :=
  let nodes := (d.nodes.zipIdx.filter fun p => group.contains p.2).map Prod.fst
  let shown (id : String) : Bool := nodes.any (·.id == id)
  { frame := (Node.extent nodes).getD .zero
    shift := 0
    nodes
    edges := connected.filter fun e => shown e.source && shown e.target
    external := (connected.filter fun e => shown e.source != shown e.target).map Edge.id }

/-- The units of a diagram that is no conversation. Flow charts and plain graphs leave the choice
to the settings, and the cells of a grid are pages as they are. -/
def groups (s : PageSettings α) (d : Diagram α) (extent : Rect α) : List (List Nat) :=
  match d.kind with
  | .classes => pack s d.nodes (clusters d.graph)
  | .mindmap => pack s d.nodes (levelsOf d)
  | .useCase => pack s d.nodes (actorGroups d)
  | _ =>
      match s.strategy with
      | .layers => pack s d.nodes (bands s.bandTolerance d.nodes)
      | .clusters => pack s d.nodes (clusters d.graph)
      | .grid => cells s extent d.nodes

def selectMessages (s : PageSettings α) (d : Diagram α) (page : List Conversation.Message) :
    Selection α :=
  let (shift, frame) := Conversation.frameOf s ((Node.extent d.nodes).getD .zero) page
  { frame
    shift
    nodes := d.nodes
    edges := page.filterMap fun m => d.edges[m.position]?
    external := [] }

def conversation (s : PageSettings α) (d : Diagram α) : List (Selection α) :=
  let pages := Conversation.deal (Conversation.messagesPerPage s) (Conversation.messages d)
  (if pages.isEmpty then [[]] else pages).map (selectMessages s d)

def selections (s : PageSettings α) (d : Diagram α) : List (Selection α) :=
  match Node.extent d.nodes with
  | none => []
  | some r =>
      if d.kind = .sequence then conversation s d
      else
        let connected := d.connected
        let groups := if fits s r then [List.range d.nodes.length] else groups s d r
        groups.map (select d connected)

def titleOf (title : Option String) (number total : Nat) : String :=
  match title with
  | some t => t ++ " (page " ++ toString number ++ " of " ++ toString total ++ ")"
  | none => "Page " ++ toString number ++ " of " ++ toString total

end Page

variable {α : Type} [Scalar α]

def Node.lower (shift : α) (n : Node α) : Node α := { n with y := n.y + shift }

/-- The pages of a diagram that has been laid out. What fits on one page stays together, and a
diagram without nodes has no page. -/
def Diagram.pages (s : PageSettings α) (d : Diagram α) : List (Page α) :=
  let selections := Page.selections s d
  selections.zipIdx.map fun (sel, i) =>
    { number := i + 1
      total := selections.length
      title := Page.titleOf d.title (i + 1) selections.length
      viewBox := sel.frame.inflate s.padding
      nodes := sel.nodes.map (Node.lower sel.shift)
      edges := sel.edges
      external := sel.external }

end Drafting
