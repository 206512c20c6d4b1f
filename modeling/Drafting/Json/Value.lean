import Drafting.Number.Decimal

namespace Drafting

inductive Numeral where
  | whole (negative : Bool) (n : Nat)
  | decimal (d : Decimal)
  | hexadecimal (n : Nat)
  | infinite (negative : Bool)
  | undefined
  | unreadable
deriving DecidableEq

inductive Json where
  | null
  | bool (b : Bool)
  | number (n : Numeral)
  | text (s : String)
  /-- A text with half of a surrogate pair in it, which no string can hold. -/
  | unpaired
  | array (items : List Json)
  | object (fields : List (String × Json))

namespace Json

def ofNat (n : Nat) : Json := .number (.whole false n)

def ofBinary32 (x : Float32) : Json :=
  match Decimal.ofBinary32? x with
  | some d => .number (.decimal d)
  | none => .null

def ofFields (fields : List (String × Option Json)) : Json :=
  .object (fields.filterMap fun (key, value) => value.map (key, ·))

def field? (key : String) : Json → Option Json
  | .object fields => (fields.reverse.find? (·.1 == key)).map Prod.snd
  | _ => none

end Json

end Drafting
