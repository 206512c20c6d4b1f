import Drafting.Diagram
import Drafting.Settings

namespace Drafting.Page

open Scalar

variable {α : Type} [Scalar α]

def fits (s : PageSettings α) (r : Rect α) : Bool :=
  decide (r.width ≤ s.maxWidth + s.overlapMargin) &&
    decide (r.height ≤ s.maxHeight + s.overlapMargin)

def groupExtent (nodes : List (Node α)) (group : List Nat) : Option (Rect α) :=
  Node.extent (group.filterMap fun i => nodes[i]?)

def readsBefore (r s : Rect α) : Bool :=
  if ranks r.y s.y then if ranks s.y r.y then ranks r.x s.x else true else false

def readingOrder (nodes : List (Node α)) (group : List Nat) : List (Nat × Rect α) :=
  (group.filterMap fun i => nodes[i]?.map fun n => (i, n.box)).mergeSort
    fun a b => readsBefore a.2 b.2

structure Chunk (α : Type) where
  members : List Nat
  box : Rect α

def firstFit (s : PageSettings α) (i : Nat) (r : Rect α) : List (Chunk α) → List (Chunk α)
  | [] => [⟨[i], r⟩]
  | c :: cs =>
      if fits s (c.box.join r) then ⟨c.members ++ [i], c.box.join r⟩ :: cs
      else c :: firstFit s i r cs

def splitUnit (s : PageSettings α) (nodes : List (Node α)) (unit : List Nat) :
    List (List Nat) :=
  ((readingOrder nodes unit).foldl (fun cs p => firstFit s p.1 p.2 cs) []).map Chunk.members

def chunksOf (s : PageSettings α) (nodes : List (Node α)) (unit : List Nat) : List (List Nat) :=
  match groupExtent nodes unit with
  | none => []
  | some r => if fits s r then [unit] else splitUnit s nodes unit

def fill (s : PageSettings α) : Chunk α → List (Chunk α) → List (List Nat)
  | page, [] => [page.members]
  | page, c :: cs =>
      let joined := page.box.join c.box
      if fits s joined then fill s ⟨page.members ++ c.members, joined⟩ cs
      else page.members :: fill s c cs

def pack (s : PageSettings α) (nodes : List (Node α)) (units : List (List Nat)) :
    List (List Nat) :=
  let chunks := (units.flatMap (chunksOf s nodes)).filterMap fun members =>
    (groupExtent nodes members).map fun box => ⟨members, box⟩
  match chunks with
  | [] => []
  | c :: cs => fill s c cs

end Drafting.Page
