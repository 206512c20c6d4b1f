import Mathlib.Data.List.Nodup
import Drafting.Diagram.Ids

namespace Drafting.IdSupply

variable {ids : IdSupply} {stem : String} {i n : Nat}

theorem ident_injective (stem : String) : Function.Injective (ident stem) := by
  intro m n h
  have hs : toString m = toString n := (String.append_right_inj _).1 h
  rw [Nat.toString_eq_ofList_toDigits, Nat.toString_eq_ofList_toDigits, String.ofList_inj] at hs
  rw [← Nat.ofDigitChars_ten_toDigits (n := m), hs, Nat.ofDigitChars_ten_toDigits]

theorem nodup_take (ids : IdSupply) (stem : String) (k : Nat) : (ids.take stem k).Nodup := by
  refine List.nodup_range.map fun m n h => ?_
  have := ident_injective stem h
  omega

def nth (ids : IdSupply) (stem : String) (i : Nat) : String := ident stem (ids.count stem + i + 1)

theorem take_succ (ids : IdSupply) (stem : String) (n : Nat) :
    ids.take stem (n + 1) = ids.take stem n ++ [ids.nth stem n] := by
  rw [take, List.range_succ, List.map_append]
  rfl

theorem getElem?_take (h : i < n) : (ids.take stem n)[i]? = some (ids.nth stem i) := by
  rw [take, List.getElem?_map, List.getElem?_range h]
  rfl

theorem count_advance_eq (ids : IdSupply) (stem other : String) (k : Nat) :
    (ids.advance stem k).count other = ids.count other + if other = stem then k else 0 := by
  split
  next h => rw [h, count_advance]
  next h => rw [count_advance_of_ne _ _ h, Nat.add_zero]

@[simp] theorem advance_zero (ids : IdSupply) (stem : String) : ids.advance stem 0 = ids := by
  ext other
  rw [count_advance_eq, ite_self, Nat.add_zero]

theorem advance_advance (ids : IdSupply) (stem : String) (j k : Nat) :
    (ids.advance stem j).advance stem k = ids.advance stem (j + k) := by
  ext other
  simp only [count_advance_eq]
  split <;> omega

theorem advance_comm (ids : IdSupply) (stem other : String) (j k : Nat) :
    (ids.advance stem j).advance other k = (ids.advance other k).advance stem j := by
  ext third
  simp only [count_advance_eq]
  omega

theorem getD_take (h : i < n) : (ids.take stem n).getD i "" = ids.nth stem i := by
  rw [List.getD_eq_getElem?_getD, getElem?_take h, Option.getD_some]

end Drafting.IdSupply
