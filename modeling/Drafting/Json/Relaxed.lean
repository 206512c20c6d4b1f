import Drafting.Json.Scan

namespace Drafting.Json.Relaxed

open Text

def isLineEnd (c : Char) : Bool :=
  c == '\n' || c == '\r' || c == '\u2028' || c == '\u2029'

def isSpace (c : Char) : Bool :=
  (isBlank c && c != '\u0085') || c == '\ufeff'

inductive Filler where
  | plain
  | lineComment
  | blockComment

def skipFrom : Filler → List Char → List Char
  | .blockComment, '*' :: '/' :: s => skipFrom .plain s
  | .blockComment, _ :: s => skipFrom .blockComment s
  | .blockComment, [] => ['/', '*']
  | .lineComment, c :: s => skipFrom (if isLineEnd c then .plain else .lineComment) s
  | .lineComment, [] => []
  | .plain, '/' :: '/' :: s => skipFrom .lineComment s
  | .plain, '/' :: '*' :: s => skipFrom .blockComment s
  | .plain, c :: s => if isSpace c then skipFrom .plain s else c :: s
  | .plain, [] => []

def skip (s : List Char) : List Char := skipFrom .plain s

def unsigned? (negative : Bool) (s : List Char) : Option (Numeral × List Char) :=
  match s with
  | '.' :: s =>
      let (fraction, s) := Digits.split s
      if fraction.isEmpty then none else some (withExponent [] fraction s)
  | s =>
      match wholePart? s with
      | some (whole, '.' :: s) =>
          let (fraction, s) := Digits.split s
          some (withExponent whole fraction s)
      | some (whole, s) =>
          match Digits.exponent? s with
          | some (e, s) => some (decimalOf negative whole [] e, s)
          | none => some (.whole negative (Digits.value whole), s)
      | none => none
where
  withExponent (whole fraction s : List Char) : Numeral × List Char :=
    match Digits.exponent? s with
    | some (e, s) => (decimalOf negative whole fraction e, s)
    | none => (decimalOf negative whole fraction 0, s)

def magnitude? (sign : Option Char) (s : List Char) : Option (Numeral × List Char) :=
  match s with
  | '0' :: x :: r =>
      let hex := r.takeWhile isHexDigit
      if (x = 'x' ∨ x = 'X') ∧ hex ≠ [] then
        let n := ofHex hex
        some (if sign.isNone ∧ n < UInt32.size then .hexadecimal n else .unreadable,
          r.dropWhile isHexDigit)
      else unsigned? (sign == some '-') s
  | s =>
      match "Infinity".toList.isPrefixOf? s, "NaN".toList.isPrefixOf? s with
      | some r, _ =>
          some (if sign = some '+' then .unreadable else .infinite (sign == some '-'), r)
      | _, some r => some (if sign = some '+' then .unreadable else .undefined, r)
      | none, none => unsigned? (sign == some '-') s

def number? (s : List Char) : Option (Numeral × List Char) :=
  match s with
  | '+' :: r => magnitude? (some '+') r
  | '-' :: r => magnitude? (some '-') r
  | r => magnitude? none r

def shortEscape? : Char → Option Char
  | 'b' => some '\x08'
  | 'f' => some '\x0c'
  | 'n' => some '\n'
  | 'r' => some '\r'
  | 't' => some '\t'
  | 'v' => some '\x0b'
  | '0' => some '\x00'
  | 'x' => none
  | 'u' => none
  | c => if isAsciiDigit c || isLineEnd c then none else some c

def codes? (mark : Char) : List Char → Option (List Nat × List Char)
  | [] => none
  | '\\' :: '\r' :: '\n' :: s => codes? mark s
  | '\\' :: 'x' :: a :: b :: s =>
      if isHexDigit a && isHexDigit b then
        (codes? mark s).map fun (us, rest) => (ofHex [a, b] :: us, rest)
      else none
  | '\\' :: 'u' :: a :: b :: c :: d :: s =>
      if [a, b, c, d].all isHexDigit then
        (codes? mark s).map fun (us, rest) => (ofHex [a, b, c, d] :: us, rest)
      else none
  | '\\' :: c :: s =>
      if isLineEnd c then codes? mark s
      else do
        let u ← shortEscape? c
        let (us, rest) ← codes? mark s
        some (u.toNat :: us, rest)
  | c :: s =>
      if c = mark then some ([], s)
      else if c = '\\' ∨ isLineEnd c then none
      else (codes? mark s).map fun (us, rest) => (c.toNat :: us, rest)

def isNameStart (c : Char) : Bool := isLetter c || c == '$' || c == '_'

def isAccent (c : Char) : Bool :=
  c == '^' || c == '\x60' || c == '\u00a8' || c == '\u00af' || c == '\u00b4' || c == '\u00b7' ||
    c == '\u00b8'

def isNameInner (c : Char) : Bool := isNameStart c || isJoiner c || isAccent c

def nameCodes : List Char → List Nat × List Char
  | '\\' :: 'u' :: a :: b :: c :: d :: s =>
      if [a, b, c, d].all isHexDigit then
        let (us, rest) := nameCodes s
        (ofHex [a, b, c, d] :: us, rest)
      else ([], '\\' :: 'u' :: a :: b :: c :: d :: s)
  | c :: s =>
      if isNameInner c then
        let (us, rest) := nameCodes s
        (c.toNat :: us, rest)
      else ([], c :: s)
  | [] => ([], [])

def joined? : List Nat × List Char → Option (String × List Char)
  | (us, rest) => (joinSurrogates us).map fun t => (String.ofList t, rest)

def string? (mark : Char) (s : List Char) : Option (String × List Char) :=
  (codes? mark s).bind joined?

def key? (s : List Char) : Option (String × List Char) :=
  match s with
  | '"' :: r => string? '"' r
  | '\'' :: r => string? '\'' r
  | c :: r => if isNameStart c || c == '\\' then joined? (nameCodes (c :: r)) else none
  | [] => none

mutual

def value? : Nat → List Char → Option (Json × List Char)
  | 0, _ => none
  | fuel + 1, s =>
      match skip s with
      | 'n' :: 'u' :: 'l' :: 'l' :: r => some (.null, r)
      | 't' :: 'r' :: 'u' :: 'e' :: r => some (.bool true, r)
      | 'f' :: 'a' :: 'l' :: 's' :: 'e' :: r => some (.bool false, r)
      | '"' :: r => (string? '"' r).map fun (t, rest) => (.text t, rest)
      | '\'' :: r => (string? '\'' r).map fun (t, rest) => (.text t, rest)
      | '[' :: r =>
          match skip r with
          | ']' :: r => some (.array [], r)
          | r => (items? fuel r).map fun (vs, rest) => (.array vs, rest)
      | '{' :: r =>
          match skip r with
          | '}' :: r => some (.object [], r)
          | r => (fields? fuel r).map fun (fs, rest) => (.object fs, rest)
      | r => (number? r).map fun (n, rest) => (.number n, rest)

def items? : Nat → List Char → Option (List Json × List Char)
  | 0, _ => none
  | fuel + 1, s => do
      let (v, r) ← value? fuel s
      match skip r with
      | ']' :: r => some ([v], r)
      | ',' :: r =>
          match skip r with
          | ']' :: r => some ([v], r)
          | r =>
              let (vs, rest) ← items? fuel r
              some (v :: vs, rest)
      | _ => none

def fields? : Nat → List Char → Option (List (String × Json) × List Char)
  | 0, _ => none
  | fuel + 1, s => do
      let (key, r) ← key? (skip s)
      let ':' :: r := skip r | none
      let (v, r) ← value? fuel r
      match skip r with
      | '}' :: r => some ([(key, v)], r)
      | ',' :: r =>
          match skip r with
          | '}' :: r => some ([(key, v)], r)
          | r =>
              let (fs, rest) ← fields? fuel r
              some ((key, v) :: fs, rest)
      | _ => none

end

/-- The document that makes up the whole text. Every step of the reader goes into a bracket or
past a character, so two steps a character are enough. -/
def read? (s : List Char) : Option Json := do
  let (v, rest) ← value? (2 * s.length + 2) s
  if (skip rest).isEmpty then some v else none

end Drafting.Json.Relaxed
