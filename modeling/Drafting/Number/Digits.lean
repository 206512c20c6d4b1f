import Drafting.Text.Property

namespace Drafting.Digits

open Text

def split (s : List Char) : List Char × List Char :=
  (s.takeWhile isAsciiDigit, s.dropWhile isAsciiDigit)

theorem split_append (s : List Char) : (split s).1 ++ (split s).2 = s :=
  List.takeWhile_append_dropWhile

def value (s : List Char) : Nat := s.foldl (fun n c => 10 * n + (c.toNat - 48)) 0

def sign : List Char → Bool × List Char
  | '-' :: s => (true, s)
  | '+' :: s => (false, s)
  | s => (false, s)

def exponent? : List Char → Option (Int × List Char)
  | e :: s =>
      if e = 'e' ∨ e = 'E' then
        let (negative, s) := sign s
        let (ds, rest) := split s
        if ds.isEmpty then none
        else some (if negative then -(value ds : Int) else value ds, rest)
      else none
  | [] => none

end Drafting.Digits
