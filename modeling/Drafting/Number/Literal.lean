import Drafting.Number.Decimal
import Drafting.Number.Digits

namespace Drafting.Literal

open Digits

def exponent? : List Char → Option Int
  | [] => some 0
  | s =>
      match Digits.exponent? s with
      | some (e, []) => some e
      | _ => none

def decimal? (negative : Bool) (s : List Char) : Option Decimal := do
  let (whole, s) := split s
  let (fraction, s) := match s with
    | '.' :: r => split r
    | r => ([], r)
  if whole.isEmpty && fraction.isEmpty then none
  let e ← exponent? s
  some ⟨negative, value (whole ++ fraction), e - fraction.length⟩

def toBinary32? (s : List Char) : Option Float32 :=
  let (negative, s) := sign s
  let word := s.map Char.toLower
  if word = "inf".toList ∨ word = "infinity".toList then
    some (if negative then Binary32.negInfinity else Binary32.infinity)
  else if word = "nan".toList then some Binary32.undefined
  else (decimal? negative s).map Decimal.toBinary32

end Drafting.Literal
