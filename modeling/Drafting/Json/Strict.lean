import Drafting.Json.Scan

namespace Drafting.Json.Strict

def isSpace (c : Char) : Bool := c == ' ' || c == '\t' || c == '\n' || c == '\r'

def skip (s : List Char) : List Char := s.dropWhile isSpace

def number? (s : List Char) : Option (Numeral × List Char) := do
  let (negative, s) := match s with
    | '-' :: r => (true, r)
    | r => (false, r)
  let (whole, s) ← wholePart? s
  match s with
  | '.' :: s =>
      let (fraction, s) := Digits.split s
      if fraction.isEmpty then none
      else match Digits.exponent? s with
        | some (e, s) => some (decimalOf negative whole fraction e, s)
        | none => some (decimalOf negative whole fraction 0, s)
  | s =>
      match Digits.exponent? s with
      | some (e, s) => some (decimalOf negative whole [] e, s)
      | none => some (.whole negative (Digits.value whole), s)

def shortEscape? : Char → Option Nat
  | '"' => some 34
  | '\\' => some 92
  | '/' => some 47
  | 'b' => some 8
  | 'f' => some 12
  | 'n' => some 10
  | 'r' => some 13
  | 't' => some 9
  | _ => none

def codes? : List Char → Option (List Nat × List Char)
  | [] => none
  | '"' :: s => some ([], s)
  | '\\' :: 'u' :: a :: b :: c :: d :: s =>
      if [a, b, c, d].all isHexDigit then
        (codes? s).map fun (us, rest) => (ofHex [a, b, c, d] :: us, rest)
      else none
  | '\\' :: c :: s => do
      let u ← shortEscape? c
      let (us, rest) ← codes? s
      some (u :: us, rest)
  | c :: s =>
      if c.toNat < 32 then none else (codes? s).map fun (us, rest) => (c.toNat :: us, rest)

def string? (s : List Char) : Option (Json × List Char) :=
  (codes? s).map fun (us, rest) =>
    match joinSurrogates us with
    | some t => (.text (String.ofList t), rest)
    | none => (.unpaired, rest)

mutual

def value? : Nat → List Char → Option (Json × List Char)
  | 0, _ => none
  | fuel + 1, s =>
      match skip s with
      | 'n' :: 'u' :: 'l' :: 'l' :: r => some (.null, r)
      | 't' :: 'r' :: 'u' :: 'e' :: r => some (.bool true, r)
      | 'f' :: 'a' :: 'l' :: 's' :: 'e' :: r => some (.bool false, r)
      | '"' :: r => string? r
      | '[' :: r =>
          match skip r with
          | ']' :: r => some (.array [], r)
          | r => (items? fuel r).map fun (vs, rest) => (.array vs, rest)
      | '{' :: r =>
          match skip r with
          | '}' :: r => some (.object [], r)
          | r => (fields? fuel r).map fun (fs, rest) => (.object fs, rest)
      | r => (number? r).map fun (n, rest) => (.number n, rest)

def items? : Nat → List Char → Option (List Json × List Char)
  | 0, _ => none
  | fuel + 1, s => do
      let (v, r) ← value? fuel s
      match skip r with
      | ',' :: r =>
          let (vs, rest) ← items? fuel r
          some (v :: vs, rest)
      | ']' :: r => some ([v], r)
      | _ => none

def fields? : Nat → List Char → Option (List (String × Json) × List Char)
  | 0, _ => none
  | fuel + 1, s =>
      match skip s with
      | '"' :: r => do
          let (.text key, r) ← string? r | none
          let ':' :: r := skip r | none
          let (v, r) ← value? fuel r
          match skip r with
          | ',' :: r =>
              let (fs, rest) ← fields? fuel r
              some ((key, v) :: fs, rest)
          | '}' :: r => some ([(key, v)], r)
          | _ => none
      | _ => none

end

def read? (s : List Char) : Option Json := do
  let (v, rest) ← value? (2 * s.length + 2) s
  if (skip rest).isEmpty then some v else none

end Drafting.Json.Strict
