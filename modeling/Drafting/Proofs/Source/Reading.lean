import Drafting.Source

namespace Drafting

structure Sketch.Tie where
  source : Nat
  target : Nat
  kind : EdgeKind
  label : Option String
  order : Option Nat
deriving DecidableEq

structure Sketch where
  items : List Sketch.Item
  ties : List Sketch.Tie
  title : Option String
deriving DecidableEq

namespace Sketch

def empty : Sketch := ⟨[], [], none⟩

def titled (s : Sketch) (title : String) : Sketch := { s with title := some title }

def ensure (s : Sketch) (isSame : Item → Bool) (item : Item) : Sketch × Nat :=
  match s.items.findIdx? isSame with
  | some i => (s, i)
  | none => ({ s with items := s.items ++ [item] }, s.items.length)

def tie (s : Sketch) (t : Tie) : Sketch := { s with ties := s.ties ++ [t] }

def Tie.toEdge (nodeIds : List String) (t : Tie) (id : String) : Edge :=
  ⟨id, nodeIds.getD t.source "", nodeIds.getD t.target "", t.label, some t.kind, t.order⟩

def toDiagram {α : Type} [Scalar α] (s : Sketch) (kind : DiagramKind) (skipped : List Nat)
    (unresolved : List String) (ids : IdSupply) : Diagram α :=
  let nodeIds := ids.take "node" s.items.length
  let edgeIds := ids.take "edge" s.ties.length
  { kind
    nodes := List.zipWith (fun item id => item.toNode kind id) s.items nodeIds
    edges := List.zipWith (fun t id => t.toEdge nodeIds id) s.ties edgeIds
    title := s.title
    skipped
    unresolved }

def spend (s : Sketch) (ids : IdSupply) : IdSupply :=
  (ids.advance "node" s.items.length).advance "edge" s.ties.length

end Sketch

namespace Source

open Text

def readLines {σ : Type} (recognise : Line → Option σ) (lines : List Line) : List σ × List Nat :=
  (lines.filterMap recognise, (lines.filter fun l => (recognise l).isNone).map Line.number)

namespace Flow

inductive Statement where
  | title (text : String)
  | chain (names : List String) (label : Option String)
deriving DecidableEq

/-- A line says nothing if a name is empty, or if a label stands behind a single name. -/
def statement? (line : Line) : Option Statement :=
  match title? line.text with
  | some t => some (.title (String.ofList t))
  | none =>
      let split := cut ':' line.text
      let label := split.2.bind fun t => nonempty? (trim t)
      let names := (splitArrows split.1).map unquote
      if names.any List.isEmpty || (names.length == 1 && label.isSome) then none
      else some (.chain (names.map String.ofList) (label.map String.ofList))

def ensureAll (shape : String → NodeKind) (s : Sketch) : List String → Sketch × List Nat
  | [] => (s, [])
  | name :: names =>
      let (s, i) := s.ensure (·.label == name) ⟨shape name, name, none⟩
      let (s, is) := ensureAll shape s names
      (s, i :: is)

def hops (label : Option String) : List Nat → List Sketch.Tie
  | i :: j :: rest =>
      ⟨i, j, .flow, if rest.isEmpty then label else none, none⟩ :: hops label (j :: rest)
  | _ => []

def apply (shape : String → NodeKind) (s : Sketch) : Statement → Sketch
  | .title t => s.titled t
  | .chain names label =>
      let (s, is) := ensureAll shape s names
      { s with ties := s.ties ++ hops label is }

def sketch (shape : String → NodeKind) (statements : List Statement) : Sketch :=
  statements.foldl (apply shape) .empty

end Flow

namespace Conversation

inductive Statement where
  | message (source target : String) (kind : EdgeKind) (text : Option String)
  | declare (name : String)
  | title (text : String)
deriving DecidableEq

def statement? (line : Line) : Option Statement :=
  let split := cut ':' line.text
  match ends? split.1 with
  | some (source, kind, target) => do
      let source ← nonempty? (unquote source)
      let target ← nonempty? (unquote target)
      let text := split.2.bind fun t => nonempty? (trim t)
      some (.message (String.ofList source) (String.ofList target) kind (text.map String.ofList))
  | none =>
      match declared? line.text with
      | some name => some (.declare (String.ofList name))
      | none => (title? line.text).map fun t => .title (String.ofList t)

def actor (s : Sketch) (name : String) : Sketch × Nat :=
  s.ensure (·.label == name) ⟨.actor, name, none⟩

/-- Messages are numbered from zero; each is a tie, so their number is that of the ties. -/
def apply (s : Sketch) : Statement → Sketch
  | .message source target kind text =>
      let (s, i) := actor s source
      let (s, j) := actor s target
      s.tie ⟨i, j, kind, text, some s.ties.length⟩
  | .declare name => (actor s name).1
  | .title t => s.titled t

def sketch (statements : List Statement) : Sketch := statements.foldl apply .empty

end Conversation

namespace UseCase

def statement? (line : Line) : Option Statement :=
  match relation? line.text with
  | some s => some s
  | none =>
      match linkParts? line.text with
      | some (actor, name, label) =>
          (nonempty? (unquote actor)).map fun a =>
            .link (String.ofList a) (String.ofList (trim name)) (label.map String.ofList)
      | none =>
          (declaredActor? line.text).or <| (declaredCase? line.text).or <|
            (title? line.text).map fun t => .title (String.ofList t)

def ensure (kind : NodeKind) (s : Sketch) (name : String) : Sketch × Nat :=
  s.ensure (fun item => item.kind = kind ∧ item.label = name) ⟨kind, name, none⟩

def apply (s : Sketch) : Statement → Sketch
  | .relation source target kind label =>
      let (s, i) := ensure .useCase s source
      let (s, j) := ensure .useCase s target
      s.tie ⟨i, j, kind, label, none⟩
  | .link actor useCase label =>
      let (s, i) := ensure .actor s actor
      let (s, j) := ensure .useCase s useCase
      s.tie ⟨i, j, .association, label, none⟩
  | .actor name => (ensure .actor s name).1
  | .useCase name => (ensure .useCase s name).1
  | .title t => s.titled t

def sketch (statements : List Statement) : Sketch := statements.foldl apply .empty

end UseCase

namespace Outline

def entry? (line : Line) : Option Entry :=
  (nonempty? (unquote (dropBullet line.text))).map fun label =>
    ⟨line.indent / 2, String.ofList label⟩

/-- For each entry the position of its parent. The open ancestors stand in a stack, the nearest on
top, and an entry closes all that are not above its level. -/
def parents : List (Nat × Nat) → Nat → List Entry → List (Option Nat)
  | _, _, [] => []
  | stack, i, e :: es =>
      let stack := stack.dropWhile fun p => e.level ≤ p.1
      stack.head?.map (·.2) :: parents ((e.level, i) :: stack) (i + 1) es

def sketch (entries : List Entry) : Sketch :=
  let parents := parents [] 0 entries
  { items := (entries.zip parents).zipIdx.map fun ((e, parent), i) =>
      ⟨roleOf parents i parent, e.label, some (.level e.level)⟩
    ties := parents.zipIdx.filterMap fun (parent, i) =>
      parent.map fun p => ⟨p, i, .branch, none, none⟩
    title := none }

end Outline

namespace ClassText

def resolve (names : List String) (r : Relation) : Except String Sketch.Tie :=
  match names.findIdx? (· == r.source), names.findIdx? (· == r.target) with
  | some i, some j => .ok ⟨i, j, r.kind, r.label, none⟩
  | some _, none => .error r.target
  | none, _ => .error r.source

def sketch (statements : List Statement) : Sketch :=
  let table := classTable statements
  let names := table.map ClassEntry.name
  { items := table.map fun e => ⟨.classBox, e.name, some (.members e.compartments)⟩
    ties := (relations statements).filterMap fun r => (resolve names r).toOption
    title := titleOf statements }

def unresolved (statements : List Statement) : List String :=
  let names := (classTable statements).map ClassEntry.name
  ((relations statements).filterMap fun r => match resolve names r with
    | .ok _ => none
    | .error name => some name).eraseDups

end ClassText

structure Reading where
  sketch : Sketch
  skipped : List Nat
  unresolved : List String

def read (kind : DiagramKind) (lines : List Line) : Reading :=
  match kind with
  | .classes =>
      let (statements, skipped) := ClassText.readFrom .outside lines
      ⟨ClassText.sketch statements, skipped, ClassText.unresolved statements⟩
  | .sequence =>
      let (statements, skipped) := readLines Conversation.statement? lines
      ⟨Conversation.sketch statements, skipped, []⟩
  | .flow =>
      let (statements, skipped) := readLines Flow.statement? lines
      ⟨Flow.sketch Flow.shapeOf statements, skipped, []⟩
  | .generic =>
      let (statements, skipped) := readLines Flow.statement? lines
      ⟨Flow.sketch (fun _ => .generic) statements, skipped, []⟩
  | .useCase =>
      let (statements, skipped) := readLines UseCase.statement? lines
      ⟨UseCase.sketch statements, skipped, []⟩
  | .mindmap =>
      let (entries, skipped) := readLines Outline.entry? lines
      ⟨Outline.sketch entries, skipped, []⟩

end Source

end Drafting
