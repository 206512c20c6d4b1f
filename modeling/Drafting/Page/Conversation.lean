import Drafting.Diagram.Link
import Drafting.Settings

namespace Drafting.Page.Conversation

open Scalar

variable {α : Type} [Scalar α]

def frameHeight : α := 200

def messagesPerPage (s : PageSettings α) : Nat :=
  max (floorNat ((s.maxHeight - frameHeight) / greatest s.pixelsPerMessage 1)) 1

structure Message where
  order : Nat
  position : Nat
deriving DecidableEq

def Message.ofLink (l : Link α) : Message := ⟨l.edge.order.getD l.position, l.position⟩

def Message.before (a b : Message) : Bool :=
  decide (a.order < b.order ∨ a.order = b.order ∧ a.position ≤ b.position)

def messages (d : Diagram α) : List Message :=
  (d.links.map Message.ofLink).mergeSort Message.before

def deal {β : Type} (n : Nat) (items : List β) : List (List β) :=
  if _ : items = [] ∨ n = 0 then []
  else items.take n :: deal n (items.drop n)
termination_by items.length
decreasing_by
  have : 0 < items.length := List.length_pos_iff.2 (by simp_all)
  simp only [List.length_drop]
  omega

/-- The number of rows from the first to the last message of a page. Rows are 64-bit words, and
one more than the last of them is the first. -/
def rowSpan (first last : Nat) : Nat :=
  (UInt64.ofNat last + 1).toNat - (UInt64.ofNat first).toNat

/-- How far a page moves its actors down, and its frame before any padding. -/
def frame (s : PageSettings α) (header : Rect α) (first last : Nat) : α × Rect α :=
  let shift := (first : α) * s.pixelsPerMessage
  let height :=
    greatest (frameHeight + (rowSpan first last : α) * s.pixelsPerMessage) header.height
  (shift, ⟨header.x, header.y + shift, header.width, height⟩)

def frameOf (s : PageSettings α) (header : Rect α) (page : List Message) : α × Rect α :=
  match page.head?, page.getLast? with
  | some first, some last => frame s header first.order last.order
  | _, _ => (0, (frame s header 0 0).2)

end Drafting.Page.Conversation
