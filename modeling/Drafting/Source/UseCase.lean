import Drafting.Source.Draft

namespace Drafting.Source.UseCase

open Text

inductive Statement where
  | relation (source target : String) (kind : EdgeKind) (label : Option String)
  | link (actor useCase : String) (label : Option String)
  | actor (name : String)
  | useCase (name : String)
  | title (text : String)
deriving DecidableEq

def parenthesised? : List Char → Option (List Char × List Char)
  | '(' :: s =>
      let name := s.takeWhile fun c => c != '(' && c != ')'
      match name, s.dropWhile (fun c => c != '(' && c != ')') with
      | _ :: _, ')' :: rest => some (name, rest)
      | _, _ => none
  | _ => none

def relationArrow? : List Char → Option (List Char)
  | a :: '>' :: s => if a = '-' ∨ a = '.' then some s else none
  | a :: b :: '>' :: s => if (a = '-' ∨ a = '.') ∧ (b = '-' ∨ b = '.') then some s else none
  | _ => none

/-- The name in front of an arrow that ends the text, blanks aside. The first character always
belongs to the name. -/
def beforeArrow? : List Char → Option (List Char)
  | [] => none
  | c :: s =>
      match s.reverse.dropWhile isBlank with
      | '>' :: '-' :: '-' :: r => some (c :: r.reverse)
      | '>' :: '-' :: r => some (c :: r.reverse)
      | _ => none

def relationKind (label : List Char) : EdgeKind :=
  let word := (closing (opening label)).map Char.toLower
  if word = "include".toList ∨ word = "includes".toList then .inclusion
  else if word = "extend".toList ∨ word = "extends".toList then .extension
  else .association
where
  opening : List Char → List Char
    | '<' :: '<' :: s => opening s
    | s => s
  dropPairs : List Char → List Char
    | '>' :: '>' :: s => dropPairs s
    | s => s
  closing (s : List Char) : List Char := (dropPairs s.reverse).reverse

def relation? (text : List Char) : Option Statement := do
  let (source, rest) ← parenthesised? text
  let rest ← relationArrow? (skipBlanks rest)
  let (target, rest) ← parenthesised? (skipBlanks rest)
  let label ← annotation? rest
  let kind := match label with
    | some l => relationKind l
    | none => .association
  some (.relation (String.ofList (trim source)) (String.ofList (trim target)) kind
    (label.map String.ofList))

/-- The parts of a link between an actor and a use case. The first parenthesis of the line opens
the name of the use case. -/
def linkParts? (text : List Char) : Option (List Char × List Char × Option (List Char)) := do
  let before := text.takeWhile fun c => c != '(' && c != ')'
  let (name, rest) ← parenthesised? (text.dropWhile fun c => c != '(' && c != ')')
  let actor ← beforeArrow? before
  let label ← annotation? rest
  some (actor, name, label)

def declaredActor? (text : List Char) : Option Statement := do
  let rest ← caseless? "actor".toList text
  let name ← nonempty? (unquote (← gap? rest))
  some (.actor (String.ofList name))

def declaredCase? (text : List Char) : Option Statement :=
  match parenthesised? text with
  | some (name, []) => some (.useCase (String.ofList (trim name)))
  | _ => none

variable {α : Type} [Scalar α]

def drawNode (kind : NodeKind) (d : Draft α) (name : String) : Draft α × String :=
  let item : Sketch.Item := ⟨kind, name, none⟩
  d.ensure (fun n => n.kind = kind ∧ n.label = name) (item.toNode .useCase)

def drawLink (kind : NodeKind) (d : Draft α) (source target : String) (edge : EdgeKind)
    (label : Option String) : Draft α :=
  let (d, source) := drawNode kind d source
  let (d, target) := drawNode .useCase d target
  d.connect source target edge label none

def draw (d : Draft α) : Statement → Draft α
  | .relation source target kind label => drawLink .useCase d source target kind label
  | .link actor useCase label => drawLink .actor d actor useCase .association label
  | .actor name => (drawNode .actor d name).1
  | .useCase name => (drawNode .useCase d name).1
  | .title t => d.titled t

def advance (p : Pass α) (line : Line) : Pass α :=
  match relation? line.text with
  | some s => { p with draft := draw p.draft s }
  | none =>
      match linkParts? line.text with
      | some (actor, name, label) =>
          let actor := unquote actor
          if actor.isEmpty then p.skip line
          else
            { p with draft := drawLink .actor p.draft (String.ofList actor)
                      (String.ofList (trim name)) .association (label.map String.ofList) }
      | none =>
          match declaredActor? line.text with
          | some s => { p with draft := draw p.draft s }
          | none =>
              match declaredCase? line.text with
              | some s => { p with draft := draw p.draft s }
              | none =>
                  match title? line.text with
                  | some t => { p with draft := p.draft.titled (String.ofList t) }
                  | none => p.skip line

end Drafting.Source.UseCase
