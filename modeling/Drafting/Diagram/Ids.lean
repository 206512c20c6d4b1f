namespace Drafting

@[ext]
structure IdSupply where
  count : String → Nat

namespace IdSupply

def fresh : IdSupply := ⟨fun _ => 0⟩

def ident (stem : String) (n : Nat) : String := stem ++ "-" ++ toString n

def advance (ids : IdSupply) (stem : String) (k : Nat) : IdSupply :=
  let n := ids.count stem + k
  ⟨fun other => if other = stem then n else ids.count other⟩

def next (ids : IdSupply) (stem : String) : String × IdSupply :=
  (ident stem (ids.count stem + 1), ids.advance stem 1)

def take (ids : IdSupply) (stem : String) (k : Nat) : List String :=
  (List.range k).map fun i => ident stem (ids.count stem + i + 1)

@[simp] theorem count_advance (ids : IdSupply) (stem : String) (k : Nat) :
    (ids.advance stem k).count stem = ids.count stem + k := if_pos rfl

theorem count_advance_of_ne (ids : IdSupply) {stem other : String} (k : Nat) (h : other ≠ stem) :
    (ids.advance stem k).count other = ids.count other := if_neg h

@[simp] theorem length_take (ids : IdSupply) (stem : String) (k : Nat) :
    (ids.take stem k).length = k := by
  simp [take]

end IdSupply

end Drafting
