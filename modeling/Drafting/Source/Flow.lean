import Drafting.Source.Draft

namespace Drafting.Source.Flow

open Text

def splitArrows : List Char → List (List Char)
  | [] => [[]]
  | '-' :: '-' :: '>' :: s => [] :: splitArrows s
  | '-' :: '>' :: s => [] :: splitArrows s
  | c :: s =>
      match splitArrows s with
      | [] => [[c]]
      | p :: ps => (c :: p) :: ps

def shapeOf (name : String) : NodeKind :=
  let s := name.toList.map Char.toLower
  if occursIn "start".toList s then .start
  else if occursIn "end".toList s then .finish
  else if occursIn "decision".toList s then .decision
  else if occursIn "input".toList s then .input
  else if occursIn "output".toList s then .output
  else .process

variable {α : Type} [Scalar α]

def drawNames (kind : DiagramKind) (shape : String → NodeKind) (d : Draft α) :
    List String → Draft α × List String
  | [] => (d, [])
  | name :: names =>
      let item : Sketch.Item := ⟨shape name, name, none⟩
      let (d, id) := d.ensure (·.label == name) (item.toNode kind)
      let (d, ids) := drawNames kind shape d names
      (d, id :: ids)

def drawHops (label : Option String) (d : Draft α) : List String → Draft α
  | source :: target :: rest =>
      drawHops label
        (d.connect source target .flow (if rest.isEmpty then label else none) none) (target :: rest)
  | _ => d

/-- A line says nothing if a name is empty, or if a label stands behind a single name. -/
def advance (kind : DiagramKind) (shape : String → NodeKind) (p : Pass α) (line : Line) : Pass α :=
  match title? line.text with
  | some t => { p with draft := p.draft.titled (String.ofList t) }
  | none =>
      let split := cut ':' line.text
      let label := split.2.bind fun t => nonempty? (trim t)
      let names := (splitArrows split.1).map unquote
      if names.any List.isEmpty then p.skip line
      else if names.length = 1 then
        if label.isSome then p.skip line
        else { p with draft := (drawNames kind shape p.draft (names.map String.ofList)).1 }
      else
        let (d, ids) := drawNames kind shape p.draft (names.map String.ofList)
        { p with draft := drawHops (label.map String.ofList) d ids }

end Drafting.Source.Flow
