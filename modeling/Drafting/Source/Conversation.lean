import Drafting.Source.Draft

namespace Drafting.Source.Conversation

open Text

def splitArrow? : List Char → Option (List Char × EdgeKind × List Char)
  | [] => none
  | '-' :: '-' :: '>' :: s => some ([], .async, s)
  | '-' :: '>' :: s => some ([], .sync, s)
  | c :: s => (splitArrow? s).map fun (before, kind, after) => (c :: before, kind, after)

/-- The two sides of a message and its kind. The first character always belongs to the sender, so
an arrow never begins a line; and something must stand behind the arrow. -/
def ends? : List Char → Option (List Char × EdgeKind × List Char)
  | [] => none
  | c :: s =>
      match splitArrow? s with
      | some (before, kind, after) =>
          if after.isEmpty then none else some (c :: before, kind, after)
      | none => none

def declared? (text : List Char) : Option (List Char) := do
  let rest ← (caseless? "participant".toList text).or (caseless? "actor".toList text)
  nonempty? (unquote (← gap? rest))

variable {α : Type} [Scalar α]

def drawActor (d : Draft α) (name : String) : Draft α × String :=
  let item : Sketch.Item := ⟨.actor, name, none⟩
  d.ensure (·.label == name) (item.toNode .sequence)

def drawMessage (d : Draft α) (source target : String) (kind : EdgeKind) (text : Option String) :
    Draft α :=
  let (d, source) := drawActor d source
  let (d, target) := drawActor d target
  let d := d.connect source target kind text (some d.row)
  { d with row := d.row + 1 }

def advance (p : Pass α) (line : Line) : Pass α :=
  let split := cut ':' line.text
  match ends? split.1 with
  | some (source, kind, target) =>
      let source := unquote source
      let target := unquote target
      if source.isEmpty || target.isEmpty then p.skip line
      else
        let text := split.2.bind fun t => nonempty? (trim t)
        { p with draft := drawMessage p.draft (String.ofList source) (String.ofList target) kind
                  (text.map String.ofList) }
  | none =>
      match declared? line.text with
      | some name => { p with draft := (drawActor p.draft (String.ofList name)).1 }
      | none =>
          match title? line.text with
          | some t => { p with draft := p.draft.titled (String.ofList t) }
          | none => p.skip line

end Drafting.Source.Conversation
