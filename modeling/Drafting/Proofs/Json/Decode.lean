import Drafting.Json.Decode
import Mathlib.Data.List.Nodup

namespace Drafting.Json

section

variable {fields : List (String × Option Json)}

theorem mem_present {key : String} {j : Json} :
    (key, j) ∈ fields.filterMap (fun (key, value) => value.map (key, ·)) ↔
      (key, some j) ∈ fields := by
  rw [List.mem_filterMap]
  constructor
  · rintro ⟨⟨k, v⟩, hm, hv⟩
    obtain ⟨i, rfl, hi⟩ := Option.map_eq_some_iff.1 hv
    cases hi
    exact hm
  · exact fun h => ⟨(key, some j), h, rfl⟩

theorem field?_ofFields (hn : (fields.map Prod.fst).Nodup) {key : String} {value : Option Json}
    (hm : (key, value) ∈ fields) : (ofFields fields).field? key = value := by
  have hone {v : Option Json} (hv : (key, v) ∈ fields) : v = value :=
    congrArg Prod.snd (List.inj_on_of_nodup_map hn hv hm rfl)
  rw [ofFields, field?]
  cases hf : (fields.filterMap fun (key, value) => value.map (key, ·)).reverse.find?
      (·.1 == key) with
  | none =>
      cases value with
      | none => rfl
      | some j =>
          rw [List.find?_eq_none] at hf
          exact absurd (beq_self_eq_true key) (hf (key, j) (List.mem_reverse.2 (mem_present.2 hm)))
  | some p =>
      obtain ⟨k, j⟩ := p
      obtain rfl : k = key := by simpa using List.find?_some hf
      exact hone (mem_present.1 (List.mem_reverse.1 (List.mem_of_find?_eq_some hf)))

theorem record?_ofFields {names : List String} (hn : names.Nodup)
    (hf : fields.map Prod.fst = names) :
    record? names (ofFields fields) = some (fields.map Prod.snd) := by
  subst hf
  change some ((fields.map Prod.fst).map (ofFields fields).field?) = _
  rw [List.map_map]
  exact congrArg some (List.map_congr_left fun p hp => field?_ofFields hn hp)

end

/-- An object that has all fields of a record. -/
theorem record?_object {fields : List (String × Json)} {names : List String} (hn : names.Nodup)
    (hf : fields.map Prod.fst = names) :
    record? names (.object fields) = some (fields.map fun p => some p.2) := by
  have hall : Json.object fields = ofFields (fields.map fun p => (p.1, some p.2)) := by
    rw [ofFields, List.filterMap_map]
    exact congrArg Json.object List.filterMap_some.symm
  rw [hall, record?_ofFields hn (by rwa [List.map_map]), List.map_map]
  rfl

variable {β : Type} {encode : β → Json} {decode : Json → Option β}

theorem list?_map {bs : List β} (h : ∀ b ∈ bs, decode (encode b) = some b) :
    list? decode (.array (bs.map encode)) = some bs := by
  change (bs.map encode).mapM decode = some bs
  induction bs with
  | nil => rfl
  | cons b bs ih =>
      obtain ⟨hb, hbs⟩ := List.forall_mem_cons.1 h
      rw [List.map_cons, List.mapM_cons, hb, ih hbs]
      rfl

theorem optional?_some {j : Json} (h : j ≠ .null) :
    optional? decode (some j) = (decode j).map some := by
  cases j with
  | null => exact absurd rfl h
  | _ => rfl

/-- Null stands for what is absent, so nothing that is there may be written as null. -/
theorem optional?_map {b : Option β} (h : ∀ c ∈ b, decode (encode c) = some c)
    (hnull : decode .null = none) : optional? decode (b.map encode) = some b := by
  cases b with
  | none => rfl
  | some c =>
      have hc := h c rfl
      have hne : encode c ≠ .null := by
        intro he
        rw [he, hnull] at hc
        contradiction
      rw [Option.map_some, optional?_some hne, hc]
      rfl

theorem string?_text (s : String) : string? (.text s) = some s := rfl

theorem word?_text (ofName? : String → Option β) (s : String) :
    word? ofName? (.text s) = ofName? s := rfl

theorem count?_ofNat {n : Nat} (h : n < UInt64.size) : (ofNat n).count? = some n := if_pos h

end Drafting.Json
