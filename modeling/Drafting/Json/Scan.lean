import Drafting.Json.Value
import Drafting.Number.Digits

namespace Drafting.Json

open Text

def isHexDigit (c : Char) : Bool :=
  isAsciiDigit c || ('a' ≤ c && c ≤ 'f') || ('A' ≤ c && c ≤ 'F')

def hexValue (c : Char) : Nat :=
  if isAsciiDigit c then c.toNat - 48 else c.toLower.toNat - 87

def ofHex (s : List Char) : Nat := s.foldl (fun n c => 16 * n + hexValue c) 0

def wholePart? : List Char → Option (List Char × List Char)
  | '0' :: s => some (['0'], s)
  | c :: s => if isAsciiDigit c then some (Digits.split (c :: s)) else none
  | [] => none

def decimalOf (negative : Bool) (whole fraction : List Char) (exponent : Int) : Numeral :=
  .decimal ⟨negative, Digits.value (whole ++ fraction), exponent - fraction.length⟩

def joinSurrogates : List Nat → Option (List Char)
  | [] => some []
  | u :: us =>
      if 0xd800 ≤ u ∧ u < 0xdc00 then
        match us with
        | v :: vs =>
            if 0xdc00 ≤ v ∧ v < 0xe000 then
              (joinSurrogates vs).map
                (Char.ofNat (0x10000 + (u - 0xd800) * 0x400 + (v - 0xdc00)) :: ·)
            else none
        | [] => none
      else if 0xdc00 ≤ u ∧ u < 0xe000 then none
      else (joinSurrogates us).map (Char.ofNat u :: ·)

end Drafting.Json
