import Drafting.Text.Scan
import Drafting.Diagram.Kind

namespace Drafting.Source

open Text

structure Line where
  number : Nat
  indent : Nat
  text : List Char

def indentation (raw : List Char) : Nat :=
  (raw.takeWhile isBlank).foldl (fun width c => width + if c = '\t' then 2 else 1) 0

def comments : List (List Char) := ["%%".toList, "//".toList]

def Line.ofRaw? (marks : List (List Char)) (number : Nat) (raw : List Char) : Option Line :=
  let text := trim raw
  if text.isEmpty || marks.any (·.isPrefixOf text) then none
  else some ⟨number, indentation raw, text⟩

def contentLines (marks : List (List Char)) (input : List Char) : List Line :=
  ((pieces '\n' input).zipIdx 1).filterMap fun p => Line.ofRaw? marks p.2 p.1

def headerWords : List (List Char × DiagramKind) :=
  [("classdiagram".toList, .classes), ("sequencediagram".toList, .sequence),
    ("flowchart".toList, .flow), ("flow".toList, .flow), ("usecasediagram".toList, .useCase),
    ("usecase".toList, .useCase), ("mindmap".toList, .mindmap)]

def directions : List (List Char) :=
  ["td".toList, "tb".toList, "bt".toList, "lr".toList, "rl".toList]

def header? (text : List Char) : Option DiagramKind :=
  let word := (text.takeWhile fun c => !isBlank c).map Char.toLower
  let rest := (skipBlanks (text.dropWhile fun c => !isBlank c)).map Char.toLower
  if rest.isEmpty || directions.contains rest then headerWords.lookup word else none

def dropHeader : List Line → List Line
  | [] => []
  | first :: rest => if (header? first.text).isSome then rest else first :: rest

def sourceLines (marks : List (List Char)) (input : List Char) : List Line :=
  dropHeader (contentLines marks input)

/-- The title that a line gives to the diagram. A colon may stand between the word and the title;
one that is not followed by a blank belongs to the title. -/
def title? (text : List Char) : Option (List Char) := do
  let rest ← caseless? "title".toList text
  match skipBlanks rest with
  | ':' :: after =>
      match gap? after with
      | some t => (nonempty? t).map trim
      | none => (gap? rest).map trim
  | _ => (gap? rest).bind fun t => (nonempty? t).map trim

def detect? (input : List Char) : Option DiagramKind := do
  let first ← (contentLines comments input).head?
  let startsWith (word : List Char) := (caseless? word first.text).isSome
  (header? first.text).or <|
    if startsWith "class ".toList then some .classes
    else if startsWith "participant ".toList then some .sequence
    else if startsWith "actor ".toList ||
        (first.text.contains '(' && occursIn "->".toList first.text) then some .useCase
    else none

end Drafting.Source
