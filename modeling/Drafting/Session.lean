import Drafting.Diagram.Edit
import Drafting.Layout
import Drafting.Page
import Drafting.Source

namespace Drafting

structure Session (α : Type) where
  ids : IdSupply
  settings : Settings α
  diagram : Diagram α

namespace Session

variable {α : Type} [Scalar α]

def start : Session α := ⟨.fresh, .standard, .empty .generic⟩

/-- The next identifier of a stem. It is spent even if nothing comes to bear it. -/
def draw (stem : String) (s : Session α) : String × Session α :=
  let (id, ids) := s.ids.next stem
  (id, { s with ids })

def edit (f : Diagram α → Diagram α) (s : Session α) : Session α :=
  { s with diagram := f s.diagram }

def read (kind : DiagramKind) (input : List Char) (s : Session α) :
    Except Source.ReadError (Session α) :=
  (Source.parseWith kind input s.ids).map fun (diagram, ids) => { s with ids, diagram }

def configure (settings : Settings α) (s : Session α) : Session α := { s with settings }

def layout (s : Session α) : Session α := s.edit (Diagram.layout s.settings.layout)

def pages (s : Session α) : List (Page α) := s.diagram.pages s.settings.pages

def usePage? (number : Nat) (s : Session α) : Option (Session α) :=
  (s.pages.find? (·.number == number)).map fun p =>
    s.edit fun d => { d with nodes := p.nodes, edges := p.edges, title := some p.title }

def changeNode? (id : String) (f : Node α → Node α) (s : Session α) : Option (Session α) :=
  (s.diagram.changeNode? id f).map fun diagram => { s with diagram }

end Session

end Drafting
