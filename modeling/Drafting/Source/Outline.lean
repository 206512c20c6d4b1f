import Drafting.Source.Draft

namespace Drafting.Source.Outline

open Text

def marks : List (List Char) := comments ++ ["#".toList]

structure Entry where
  level : Nat
  label : String
deriving DecidableEq

def dropBullet : List Char → List Char
  | '-' :: ' ' :: s => skipBlanks s
  | '*' :: ' ' :: s => skipBlanks s
  | '+' :: ' ' :: s => skipBlanks s
  | s => s

def roleOf (parents : List (Option Nat)) (i : Nat) (parent : Option Nat) : NodeKind :=
  if parent.isNone then .root else if parents.contains (some i) then .branch else .leaf

variable {α : Type} [Scalar α]

def sprout (e : Entry) (id : String) : Node α :=
  ⟨id, .leaf, 0, 0, 1, 1, e.label, some (.level e.level)⟩

def hang (d : Draft α) (id : String) : Option Nat → Draft α
  | some j => d.connect ((d.nodes.map Node.id).getD j "") id .branch none none
  | none => d

def draw (d : Draft α) (e : Entry) : Draft α :=
  let stack := d.stack.dropWhile fun p => e.level ≤ p.1
  let parent := stack.head?.map (·.2)
  let i := d.nodes.length
  let (d, id) := d.add (sprout e)
  let parents := d.parents ++ [parent]
  { hang d id parent with stack := (e.level, i) :: stack, parents }

def advance (p : Pass α) (line : Line) : Pass α :=
  let label := unquote (dropBullet line.text)
  if label.isEmpty then p.skip line
  else { p with draft := draw p.draft ⟨line.indent / 2, String.ofList label⟩ }

def settle (d : Draft α) : List (Node α) :=
  (d.nodes.zip d.parents).zipIdx.map fun ((n, parent), i) =>
    let kind := roleOf d.parents i parent
    let size : α × α := Sketch.Item.size .mindmap ⟨kind, n.label, n.data⟩
    { n with kind, width := size.1, height := size.2 }

end Drafting.Source.Outline
