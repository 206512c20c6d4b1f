import Drafting.Number.Binary32

namespace Drafting

open Rounding

structure Decimal where
  negative : Bool
  digits : Nat
  scale : Int
deriving DecidableEq

namespace Decimal

def width (n : Nat) : Nat := (Nat.toDigits 10 n).length

/-- No power of ten beyond this matters to a binary format: `10 ^ 400` is above every finite
number and `10 ^ (-400)` below half of every step. -/
def reach : Int := 400

def tens (k : Nat) : Nat := Nat.pow 10 k

def fraction (d : Decimal) : Nat × Nat :=
  if d.digits = 0 then (0, 1)
  else if reach < d.scale then (tens reach.toNat, 1)
  else if d.scale + width d.digits < -reach then (1, tens reach.toNat)
  else if 0 ≤ d.scale then (d.digits * tens d.scale.toNat, 1)
  else (d.digits, tens (-d.scale).toNat)

def toBinary32 (d : Decimal) : Float32 :=
  Binary32.ofFraction d.negative d.fraction.1 d.fraction.2

/-- The single precision number nearest to the nearest double precision one; nothing when that is
infinite. -/
def toBinary32ViaDouble? (d : Decimal) : Option Float32 :=
  let r := double.round d.fraction.1 d.fraction.2
  if double.holds r then
    let exact := shift r.coefficient 1 r.exponent
    some (Binary32.ofFraction d.negative exact.1 exact.2)
  else none

def trimZeros (d : Decimal) : Decimal :=
  go (width d.digits) d.digits d.scale
where
  go : Nat → Nat → Int → Decimal
    | 0, n, k => ⟨d.negative, n, k⟩
    | fuel + 1, n, k =>
        if n ≠ 0 ∧ n % 10 = 0 then go fuel (n / 10) (k + 1) else ⟨d.negative, n, k⟩

def log10 (num den : Nat) : Int :=
  if den ≤ num then (width (num / den) : Int) - 1 else -(width (den / num) : Int)

def neighbours (negative : Bool) (num den : Nat) (step : Int) : List Decimal :=
  let scaled :=
    if 0 ≤ step then (num, den * tens step.toNat) else (num * tens (-step).toNat, den)
  let q := scaled.1 / scaled.2
  let below : Decimal := ⟨negative, q, step⟩
  let above : Decimal := ⟨negative, q + 1, step⟩
  if nearest scaled.1 scaled.2 = q then [below, above] else [above, below]

/-- The decimal with the fewest digits that reads back as `x`, and of those the nearest to it.
Nine digits always suffice; the exact value stands last in the search. -/
def ofBinary32? (x : Float32) : Option Decimal :=
  (Binary32.parts? x).map fun (negative, ⟨m, e⟩) =>
    let v := shift m 1 e
    let exact : Decimal :=
      if 0 ≤ e then ⟨negative, m <<< e.toNat, 0⟩ else ⟨negative, m * Nat.pow 5 (-e).toNat, e⟩
    if m = 0 then ⟨negative, 0, 0⟩
    else
      let grids := (List.range 9).flatMap fun (n : Nat) =>
        neighbours negative v.1 v.2 (log10 v.1 v.2 - n)
      trimZeros ((grids.find? fun d => d.toBinary32 = x).getD exact)

def leading (d : Decimal) : Int := d.scale + width d.digits - 1

/-- Numbers are written with a point and at least one digit on each side of it, unless the first
digit stands seven places or more behind the point or sixteen or more before it; then it alone
stands before the point, and an exponent with its sign follows. -/
def text (d : Decimal) : String :=
  let sign := if d.negative then "-" else ""
  let digits := Nat.toDigits 10 d.digits
  let e := d.leading
  if d.digits = 0 then sign ++ "0.0"
  else if e < -6 ∨ 16 ≤ e then
    let tail := digits.drop 1
    let mantissa := String.ofList (digits.take 1) ++
      (if tail.isEmpty then "" else "." ++ String.ofList tail)
    sign ++ mantissa ++ "e" ++ (if e < 0 then "-" else "+") ++ toString e.natAbs
  else if e < 0 then
    sign ++ "0." ++ String.ofList (List.replicate (e.natAbs - 1) '0' ++ digits)
  else
    let whole := digits ++ List.replicate d.scale.toNat '0'
    let cut := e.toNat + 1
    let tail := whole.drop cut
    sign ++ String.ofList (whole.take cut) ++ "." ++
      (if tail.isEmpty then "0" else String.ofList tail)

end Decimal

end Drafting
