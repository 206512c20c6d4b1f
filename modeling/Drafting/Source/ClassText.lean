import Drafting.Source.Draft

namespace Drafting.Source.ClassText

open Text

inductive Member where
  | attribute (a : Attribute)
  | method (m : Method)
deriving DecidableEq

structure Relation where
  source : String
  target : String
  kind : EdgeKind
  label : Option String
deriving DecidableEq

inductive Statement where
  | declare (name : String) (parent : Option String)
  | member (owner : String) (m : Member)
  | relation (r : Relation)
  | title (text : String)
deriving DecidableEq

/-- Where the reader stands: between classes, behind a class that may still open its body on this
line, or inside a body. -/
inductive Mode where
  | outside
  | declared (name : String)
  | inside (name : String)
deriving DecidableEq

def isNameChar (c : Char) : Bool := isWord c || c == '.'

def visibility : List Char → Visibility × List Char
  | c :: s =>
      if c == '+' || c == '-' || c == '#' || c == '~' then (.ofMark (some c), skipBlanks s)
      else (.ofMark none, skipBlanks (c :: s))
  | [] => (.ofMark none, [])

def method? (text : List Char) : Option Method := do
  let (mark, rest) := visibility text
  let (name, rest) ← name? isWord rest
  let ('(' :: rest) := skipBlanks rest | none
  let (inside, some rest) := cut ')' rest | none
  let returns ← annotation? rest
  let parameters := ((pieces ',' inside).map trim).filter fun p => !p.isEmpty
  some
    { name := String.ofList name
      returns := match returns with
        | some t => String.ofList t
        | none => "void"
      parameters := parameters.map String.ofList
      visibility := mark }

def attribute? (text : List Char) : Option Attribute := do
  let (mark, rest) := visibility text
  let (name, rest) ← name? isWord rest
  let some type ← annotation? rest | none
  some ⟨String.ofList name, String.ofList type, mark⟩

def member? (text : List Char) : Option Member :=
  match method? text with
  | some m => some (.method m)
  | none => (attribute? text).map .attribute

def memberTexts (body : List Char) : List (List Char) :=
  ((pieces ';' body).map trim).filter fun t => !t.isEmpty

structure Declaration where
  name : String
  parent : Option String
  body : Option (List Char)

def parent? (s : List Char) : Option (List Char × List Char) := do
  let rest ← "extends".toList.isPrefixOf? (← gap? s)
  name? isNameChar (← gap? rest)

def declaration? (text : List Char) : Option Declaration := do
  let rest ← "class".toList.isPrefixOf? text
  let (name, rest) ← name? isNameChar (← gap? rest)
  let (parent, rest) := match parent? rest with
    | some (parent, rest) => (some (String.ofList parent), rest)
    | none => (none, rest)
  match skipBlanks rest with
  | [] => some ⟨String.ofList name, parent, none⟩
  | '{' :: body => some ⟨String.ofList name, parent, some body⟩
  | _ => none

def relationArrow? : List Char → Option (EdgeKind × List Char)
  | '-' :: '-' :: '>' :: s => some (.association, s)
  | '-' :: '-' :: '|' :: '>' :: s => some (.inheritance, s)
  | _ => none

def relation? (text : List Char) : Option Relation := do
  let (source, rest) ← name? isNameChar text
  let (kind, rest) ← relationArrow? (skipBlanks rest)
  let (target, rest) ← name? isNameChar (skipBlanks rest)
  let label ← annotation? rest
  some ⟨String.ofList source, String.ofList target, kind, label.map String.ofList⟩

/-- What one line contributes: its statements, whether all of it was understood, and where it
leaves the reader. -/
structure Step where
  statements : List Statement
  understood : Bool
  mode : Mode

def bodyStep (owner : String) (text : List Char) : Step :=
  let (body, rest) := cut '}' text
  let members := (memberTexts body).map member?
  { statements := members.filterMap fun m => m.map (.member owner)
    understood := members.all Option.isSome
    mode := if rest.isSome then .outside else .inside owner }

def outsideStep (text : List Char) : Step :=
  match declaration? text with
  | some d =>
      let declare : Statement := .declare d.name d.parent
      match d.body with
      | some body =>
          let inner := bodyStep d.name body
          { inner with statements := declare :: inner.statements }
      | none => ⟨[declare], true, .declared d.name⟩
  | none =>
      match relation? text with
      | some r => ⟨[.relation r], true, .outside⟩
      | none =>
          match title? text with
          | some t => ⟨[.title (String.ofList t)], true, .outside⟩
          | none => ⟨[], false, .outside⟩

def step (mode : Mode) (text : List Char) : Step :=
  match mode, text with
  | .inside owner, text => bodyStep owner text
  | .declared owner, '{' :: body => bodyStep owner body
  | _, text => outsideStep text

def readFrom : Mode → List Line → List Statement × List Nat
  | _, [] => ([], [])
  | mode, line :: lines =>
      let s := step mode line.text
      let (statements, skipped) := readFrom s.mode lines
      (s.statements ++ statements, if s.understood then skipped else line.number :: skipped)

structure ClassEntry where
  name : String
  parent : Option String
  compartments : Compartments
deriving DecidableEq

def Compartments.add (c : Compartments) : Member → Compartments
  | .attribute a => { c with attributes := c.attributes ++ [a] }
  | .method m => { c with methods := c.methods ++ [m] }

def update (table : List ClassEntry) (name : String) (change : ClassEntry → ClassEntry) :
    List ClassEntry :=
  if table.any (·.name == name) then
    table.map fun e => if e.name = name then change e else e
  else table ++ [change ⟨name, none, .empty⟩]

def declareIn (table : List ClassEntry) : Statement → List ClassEntry
  | .declare name parent => update table name fun e => { e with parent := parent.or e.parent }
  | .member owner m =>
      update table owner fun e => { e with compartments := Compartments.add e.compartments m }
  | _ => table

def classTable (statements : List Statement) : List ClassEntry := statements.foldl declareIn []

def relations (statements : List Statement) : List Relation :=
  (classTable statements).filterMap (fun e =>
    e.parent.map fun p => ⟨e.name, p, .inheritance, none⟩) ++
  statements.filterMap fun
    | .relation r => some r
    | _ => none

def titleOf (statements : List Statement) : Option String :=
  statements.foldl (fun t s => match s with
    | .title text => some text
    | _ => t) none

variable {α : Type} [Scalar α]

def drawClass (d : Draft α) (e : ClassEntry) : Draft α :=
  let item : Sketch.Item := ⟨.classBox, e.name, some (.members e.compartments)⟩
  (d.add (item.toNode .classes)).1

def idOf? (d : Draft α) (name : String) : Option String :=
  (d.nodes.find? (·.label == name)).map Node.id

def note (names : List String) (name : String) : List String :=
  if names.contains name then names else names ++ [name]

/-- Draws a relation between classes that are there, or else notes the first of its names that no
class has. -/
def drawRelation (p : Draft α × List String) (r : Relation) : Draft α × List String :=
  match idOf? p.1 r.source, idOf? p.1 r.target with
  | some source, some target => (p.1.connect source target r.kind r.label none, p.2)
  | some _, none => (p.1, note p.2 r.target)
  | none, _ => (p.1, note p.2 r.source)

/-- The second pass: all classes are drawn before the first relation is. -/
def draw (statements : List Statement) (ids : IdSupply) : Draft α × List String :=
  let start : Draft α := { Draft.start ids with title := titleOf statements }
  (relations statements).foldl drawRelation ((classTable statements).foldl drawClass start, [])

end Drafting.Source.ClassText
