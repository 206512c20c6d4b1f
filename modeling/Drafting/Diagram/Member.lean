namespace Drafting

inductive Visibility where
  | isPublic
  | isPrivate
  | isProtected
deriving DecidableEq

namespace Visibility

def all : List Visibility := [isPublic, isPrivate, isProtected]

def name : Visibility → String
  | isPublic => "public"
  | isPrivate => "private"
  | isProtected => "protected"

def ofName? (s : String) : Option Visibility := all.find? (·.name == s)

def symbol : Visibility → Char
  | isPublic => '+'
  | isPrivate => '-'
  | isProtected => '#'

def ofMark : Option Char → Visibility
  | some '-' => isPrivate
  | some '#' => isProtected
  | _ => isPublic

theorem ofName?_name (v : Visibility) : ofName? v.name = some v := by
  cases v <;> decide

theorem ofMark_symbol (v : Visibility) : ofMark (some v.symbol) = v := by
  cases v <;> rfl

end Visibility

structure Attribute where
  name : String
  type : String
  visibility : Visibility
deriving DecidableEq

def Attribute.display (a : Attribute) : String :=
  a.visibility.symbol.toString ++ a.name ++ ": " ++ a.type

structure Method where
  name : String
  returns : String
  parameters : List String
  visibility : Visibility
deriving DecidableEq

def Method.display (m : Method) : String :=
  m.visibility.symbol.toString ++ m.name ++ "(" ++ String.intercalate ", " m.parameters ++ "): " ++
    m.returns

structure Compartments where
  attributes : List Attribute
  methods : List Method
deriving DecidableEq

namespace Compartments

def empty : Compartments := ⟨[], []⟩

def lines (c : Compartments) : List String :=
  c.attributes.map Attribute.display ++ c.methods.map Method.display

end Compartments

end Drafting
