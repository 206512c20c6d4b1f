import Drafting.Json.Value

namespace Drafting

namespace Json

def record? (names : List String) (j : Json) : Option (List (Option Json)) :=
  match j with
  | .object _ => some (names.map (j.field? ·))
  | .array items => if items.length = names.length then some (items.map some) else none
  | _ => none

def optional? {β : Type} (decode : Json → Option β) : Option Json → Option (Option β)
  | none => some none
  | some .null => some none
  | some j => (decode j).map some

def list? {β : Type} (decode : Json → Option β) : Json → Option (List β)
  | .array items => items.mapM decode
  | _ => none

def string? : Json → Option String
  | .text s => some s
  | _ => none

def count? : Json → Option Nat
  | .number (.whole false n) => if n < UInt64.size then some n else none
  | _ => none

def word? {β : Type} (ofName? : String → Option β) : Json → Option β
  | .text s => ofName? s
  | .object [(s, .null)] => ofName? s
  | _ => none

end Json

namespace Numeral

/-- Whole numbers that fit a 64-bit word are rounded once, all others by way of double
precision. -/
def toBinary32? : Numeral → Option Float32
  | .whole negative n =>
      if n ≤ UInt64.size / 2 ∨ ¬ negative ∧ n < UInt64.size then
        some (Decimal.toBinary32 ⟨negative, n, 0⟩)
      else Decimal.toBinary32ViaDouble? ⟨negative, n, 0⟩
  | .decimal d => d.toBinary32ViaDouble?
  | _ => none

end Numeral

namespace Json

def scalar? : Json → Option Float32
  | .number n => n.toBinary32?
  | _ => none

end Json

end Drafting
