import Drafting.Source.Flow
import Drafting.Source.Conversation
import Drafting.Source.UseCase
import Drafting.Source.Outline
import Drafting.Source.ClassText

namespace Drafting.Source

inductive ReadError where
  | emptyInput
  | noNodes (kind : DiagramKind)
deriving DecidableEq

def ReadError.message : ReadError → String
  | .emptyInput => "input is empty"
  | .noNodes kind => "no " ++ kind.name ++ " diagram elements found in input"

def marks : DiagramKind → List (List Char)
  | .mindmap => Outline.marks
  | _ => comments

inductive Language where
  | flow
  | generic
  | conversation
  | useCase
  | outline
deriving DecidableEq

variable {α : Type} [Scalar α]

namespace Language

def kind : Language → DiagramKind
  | flow => .flow
  | generic => .generic
  | conversation => .sequence
  | useCase => .useCase
  | outline => .mindmap

def advance : Language → Pass α → Line → Pass α
  | flow => Flow.advance .flow Flow.shapeOf
  | generic => Flow.advance .generic fun _ => .generic
  | conversation => Conversation.advance
  | useCase => UseCase.advance
  | outline => Outline.advance

def run (l : Language) (p : Pass α) (lines : List Line) : Pass α := lines.foldl l.advance p

def nodes : Language → Draft α → List (Node α)
  | outline, d => Outline.settle d
  | _, d => d.nodes

def diagram (l : Language) (p : Pass α) : Diagram α :=
  { kind := l.kind
    nodes := l.nodes p.draft
    edges := p.draft.edges
    title := p.draft.title
    skipped := p.skipped
    unresolved := [] }

def drawn (l : Language) (lines : List Line) (ids : IdSupply) : Diagram α × IdSupply :=
  let last := l.run (.start ids) lines
  (l.diagram last, last.draft.ids)

end Language

def ClassText.drawn (lines : List Line) (ids : IdSupply) : Diagram α × IdSupply :=
  let (statements, skipped) := readFrom .outside lines
  let (d, unresolved) := draw statements ids
  ({ kind := .classes, nodes := d.nodes, edges := d.edges, title := d.title, skipped, unresolved },
    d.ids)

def drawn : DiagramKind → List Line → IdSupply → Diagram α × IdSupply
  | .classes => ClassText.drawn
  | .sequence => Language.conversation.drawn
  | .flow => Language.flow.drawn
  | .generic => Language.generic.drawn
  | .useCase => Language.useCase.drawn
  | .mindmap => Language.outline.drawn

def finish (lines : List Line) (d : Diagram α) : Except ReadError (Diagram α) :=
  if lines.isEmpty then .error .emptyInput
  else if d.nodes.isEmpty then .error (.noNodes d.kind)
  else .ok d

/-- Reads a text with identifiers from the supply. What is left of the supply comes back even if
reading fails. -/
def parseFrom (kind : DiagramKind) (input : List Char) (ids : IdSupply) :
    Except ReadError (Diagram α) × IdSupply :=
  let lines := sourceLines (marks kind) input
  let (d, rest) := drawn kind lines ids
  (finish lines d, rest)

def parseWith (kind : DiagramKind) (input : List Char) (ids : IdSupply) :
    Except ReadError (Diagram α × IdSupply) :=
  let (result, rest) := parseFrom kind input ids
  result.map fun d => (d, rest)

def parse (kind : DiagramKind) (input : List Char) : Except ReadError (Diagram α) :=
  (parseFrom kind input .fresh).1

end Drafting.Source
