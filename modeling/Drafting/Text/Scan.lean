import Drafting.Text.Property

namespace Drafting.Text

def skipBlanks (s : List Char) : List Char := s.dropWhile isBlank

def trimEnd (s : List Char) : List Char := (s.reverse.dropWhile isBlank).reverse

def trim (s : List Char) : List Char := trimEnd (skipBlanks s)

def unquote (s : List Char) : List Char :=
  match trim s with
  | '"' :: inner => if inner.getLast? = some '"' then inner.dropLast else '"' :: inner
  | t => t

def cut (c : Char) : List Char → List Char × Option (List Char)
  | [] => ([], none)
  | d :: s => if d = c then ([], some s) else ((d :: (cut c s).1), (cut c s).2)

def pieces (c : Char) : List Char → List (List Char)
  | [] => [[]]
  | d :: s =>
      if d = c then [] :: pieces c s
      else match pieces c s with
        | [] => [[d]]
        | p :: ps => (d :: p) :: ps

def occursIn (needle : List Char) : List Char → Bool
  | [] => needle.isEmpty
  | c :: s => needle.isPrefixOf (c :: s) || occursIn needle s

def caseless? (word s : List Char) : Option (List Char) :=
  if (s.take word.length).map Char.toLower = word then some (s.drop word.length) else none

def gap? : List Char → Option (List Char)
  | c :: s => if isBlank c then some (skipBlanks s) else none
  | [] => none

def name? (inner : Char → Bool) : List Char → Option (List Char × List Char)
  | c :: s =>
      if isAsciiLetter c || c == '_' then some (c :: s.takeWhile inner, s.dropWhile inner)
      else none
  | [] => none

def nonempty? (s : List Char) : Option (List Char) := if s.isEmpty then none else some s

/-- The end of a line on which an annotation may stand behind a colon: `some none` when nothing is
left, and no result when something else follows or nothing follows the colon. -/
def annotation? (s : List Char) : Option (Option (List Char)) :=
  match skipBlanks s with
  | [] => some none
  | ':' :: t => (nonempty? (trim t)).map some
  | _ => none

end Drafting.Text
