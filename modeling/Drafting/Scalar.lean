namespace Drafting

/-- What placement asks of a coordinate. The operations may round and may yield values that are
not comparable to themselves; nothing here promises a field or an order. -/
class Scalar (α : Type) extends Add α, Sub α, Mul α, Div α, Neg α, NatCast α, LT α, LE α where
  decidableLT : ∀ a b : α, Decidable (a < b)
  decidableLE : ∀ a b : α, Decidable (a ≤ b)
  /-- The order in which values are sorted; unlike `≤` it also ranks incomparable values. -/
  ranks : α → α → Bool
  bottom : Option α
  floorNat : α → Nat
  ceilNat : α → Nat

class EuclideanScalar (α : Type) extends Scalar α where
  sqrt : α → α

namespace Scalar

variable {α : Type} [Scalar α]

instance : DecidableLT α := Scalar.decidableLT

instance : DecidableLE α := Scalar.decidableLE

instance (priority := low) (n : Nat) : OfNat α n := ⟨(n : α)⟩

/-- The lesser of two values. A value that is not comparable even to itself gives way. -/
def least (a b : α) : α := if b < a ∨ ¬ a ≤ a then b else a

def greatest (a b : α) : α := if a < b ∨ ¬ a ≤ a then b else a

def abs (a : α) : α := if a < 0 then -a else a

def clamp (low high a : α) : α := if a < low then low else if high < a then high else a

def total : List α → α
  | [] => 0
  | a :: as => as.foldl (· + ·) a

def peak (as : List α) : α := as.foldl greatest 0

def offsets (start : α) : List α → List α
  | [] => []
  | step :: steps => start :: offsets (start + step) steps

@[simp] theorem length_offsets (start : α) (steps : List α) :
    (offsets start steps).length = steps.length := by
  induction steps generalizing start with
  | nil => rfl
  | cons step steps ih => simp [offsets, ih]

end Scalar

end Drafting
