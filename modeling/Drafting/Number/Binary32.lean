import Drafting.Scalar
import Drafting.Number.Rounding

namespace Drafting.Binary32

open Rounding

def maxCount : Nat := UInt64.size - 1

def leadingBit : Nat := 0x800000

def signBit : Nat := 0x80000000

def parts? (x : Float32) : Option (Bool × Scaled) :=
  let bits := x.toBits.toNat
  let field : Nat := bits / leadingBit % 256
  let fraction : Nat := bits % leadingBit
  let negative := decide (signBit ≤ bits)
  if field = 255 then none
  else if field = 0 then some (negative, ⟨fraction, -149⟩)
  else some (negative, ⟨leadingBit + fraction, (field : Int) - 150⟩)

def isFinite (x : Float32) : Bool := (parts? x).isSome

def signed (negative : Bool) (magnitude : Nat) : Float32 :=
  Float32.ofBits (UInt32.ofNat (if negative then signBit + magnitude else magnitude))

def infinity : Float32 := signed false (255 * leadingBit)

def negInfinity : Float32 := signed true (255 * leadingBit)

def undefined : Float32 := infinity - infinity

/-- The nearest single precision number to a signed fraction. Magnitudes in bit order are
magnitudes in numeric order, and every coefficient too large for the last exponent stands for the
infinity that follows it. -/
def ofFraction (negative : Bool) (num den : Nat) : Float32 :=
  let r := single.round num den
  signed negative (min ((r.exponent + 149).toNat * leadingBit + r.coefficient) (255 * leadingBit))

def floorNat (x : Float32) : Nat :=
  match parts? x with
  | some (false, ⟨m, e⟩) => min (if 0 ≤ e then m <<< e.toNat else m >>> (-e).toNat) maxCount
  | some (true, _) => 0
  | none => if 0 < x then maxCount else 0

def ceilNat (x : Float32) : Nat :=
  match parts? x with
  | some (false, ⟨m, e⟩) =>
      min (if 0 ≤ e then m <<< e.toNat else (m + (1 <<< (-e).toNat) - 1) >>> (-e).toNat) maxCount
  | some (true, _) => 0
  | none => if 0 < x then maxCount else 0

/-- A place in the order that follows the numbers, the negative zero just below the zero and an
undefined value below everything. -/
def rank (x : Float32) : Int :=
  let bits := x.toBits.toNat
  if x.isNaN then -(2 * signBit) else if bits < signBit then bits else (signBit : Int) - 1 - bits

instance instNatCast : NatCast Float32 := ⟨Float32.ofNat⟩

instance instScalar : Scalar Float32 where
  decidableLT := Float32.decLt
  decidableLE := Float32.decLe
  ranks a b := decide (rank a ≤ rank b)
  bottom := some negInfinity
  floorNat := floorNat
  ceilNat := ceilNat

instance instEuclideanScalar : EuclideanScalar Float32 where
  sqrt := Float32.sqrt

end Drafting.Binary32
