import Drafting.Json.Value

namespace Drafting.Json

def hexDigit (n : Nat) : Char := (Nat.toDigits 16 n).getD 0 '0'

def escape (c : Char) : List Char :=
  if c = '"' then ['\\', '"']
  else if c = '\\' then ['\\', '\\']
  else if c = '\n' then ['\\', 'n']
  else if c = '\r' then ['\\', 'r']
  else if c = '\t' then ['\\', 't']
  else if c = '\x08' then ['\\', 'b']
  else if c = '\x0c' then ['\\', 'f']
  else if c.toNat < 32 then
    ['\\', 'u', '0', '0', hexDigit (c.toNat / 16), hexDigit (c.toNat % 16)]
  else [c]

def quote (s : String) : String := "\"" ++ String.ofList (s.toList.flatMap escape) ++ "\""

def numeral : Numeral → String
  | .whole negative n => (if negative then "-" else "") ++ toString n
  | .decimal d => d.text
  | .hexadecimal n => toString n
  | _ => "null"

mutual

def render : Json → String
  | .null => "null"
  | .bool b => if b then "true" else "false"
  | .number n => numeral n
  | .text s => quote s
  | .unpaired => "null"
  | .array items => "[" ++ renderItems items ++ "]"
  | .object fields => "\x7b" ++ renderFields fields ++ "\x7d"

def renderItems : List Json → String
  | [] => ""
  | [v] => render v
  | v :: vs => render v ++ "," ++ renderItems vs

def renderFields : List (String × Json) → String
  | [] => ""
  | [(key, v)] => quote key ++ ":" ++ render v
  | (key, v) :: fs => quote key ++ ":" ++ render v ++ "," ++ renderFields fs

end

def indent (depth : Nat) : String := "\n" ++ String.ofList (List.replicate (2 * depth) ' ')

mutual

def pretty (depth : Nat) : Json → String
  | .array [] => "[]"
  | .object [] => "\x7b\x7d"
  | .array (v :: vs) =>
      "[" ++ indent (depth + 1) ++ pretty (depth + 1) v ++ prettyItems (depth + 1) vs ++
        indent depth ++ "]"
  | .object ((key, v) :: fs) =>
      "\x7b" ++ indent (depth + 1) ++ quote key ++ ": " ++ pretty (depth + 1) v ++
        prettyFields (depth + 1) fs ++ indent depth ++ "\x7d"
  | .null => "null"
  | .bool b => if b then "true" else "false"
  | .number n => numeral n
  | .text s => quote s
  | .unpaired => "null"

def prettyItems (depth : Nat) : List Json → String
  | [] => ""
  | v :: vs => "," ++ indent depth ++ pretty depth v ++ prettyItems depth vs

def prettyFields (depth : Nat) : List (String × Json) → String
  | [] => ""
  | (key, v) :: fs =>
      "," ++ indent depth ++ quote key ++ ": " ++ pretty depth v ++ prettyFields depth fs

end

end Drafting.Json
