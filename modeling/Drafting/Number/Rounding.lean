namespace Drafting.Rounding

structure Format where
  precision : Nat
  lowest : Int
  highest : Int

def single : Format := ⟨24, -149, 104⟩

def double : Format := ⟨53, -1074, 971⟩

structure Scaled where
  coefficient : Nat
  exponent : Int
deriving DecidableEq

def nearest (num den : Nat) : Nat :=
  let q := num / den
  let r := num % den
  if 2 * r < den ∨ 2 * r = den ∧ q % 2 = 0 then q else q + 1

def shift (num den : Nat) (e : Int) : Nat × Nat :=
  if 0 ≤ e then (num <<< e.toNat, den) else (num, den <<< (-e).toNat)

def log2 (num den : Nat) : Int :=
  let e : Int := (num.log2 : Int) - den.log2
  let scaled := shift num den (-e)
  if scaled.1 < scaled.2 then e - 1 else e

def Format.round (f : Format) (num den : Nat) : Scaled :=
  if num = 0 then ⟨0, f.lowest⟩
  else
    let e := max (log2 num den - f.precision + 1) f.lowest
    let scaled := shift num den (-e)
    ⟨nearest scaled.1 scaled.2, e⟩

/-- Whether a rounded number is finite. Rounding up can leave a coefficient with one bit too many,
which counts as overflow at the largest step only. -/
def Format.holds (f : Format) (r : Scaled) : Bool :=
  decide (r.exponent < f.highest ∨
    r.exponent = f.highest ∧ r.coefficient < 1 <<< f.precision)

end Drafting.Rounding
