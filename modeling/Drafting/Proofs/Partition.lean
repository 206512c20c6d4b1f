import Mathlib.Data.List.Nodup
import Mathlib.Data.List.Perm.Basic
import Mathlib.Data.List.Range

namespace Drafting

variable {β κ : Type}

theorem nodup_eraseDups [BEq β] [LawfulBEq β] (xs : List β) : xs.eraseDups.Nodup := by
  induction h : xs.length using Nat.strong_induction_on generalizing xs with
  | _ n ih =>
      cases xs with
      | nil => simp
      | cons x xs =>
          rw [List.eraseDups_cons, List.nodup_cons]
          constructor
          · simp [List.mem_eraseDups]
          · have hl := List.length_filter_le (fun y => !y == x) xs
            exact ih _ (by rw [List.length_cons] at h; omega) _ rfl

theorem eraseDups_eq_nil_iff [BEq β] {xs : List β} : xs.eraseDups = [] ↔ xs = [] := by
  cases xs <;> simp [List.eraseDups_cons]

/-- What has been there before makes no difference. -/
theorem eraseDups_append_of_subset [BEq β] [LawfulBEq β] {xs ys : List β} (h : ys ⊆ xs)
    (zs : List β) : (xs ++ (ys ++ zs)).eraseDups = (xs ++ zs).eraseDups := by
  have hnone : ys.filter (fun y => !xs.elem y) = [] := by
    refine List.filter_eq_nil_iff.2 fun y hy => ?_
    simp [h hy]
  rw [List.eraseDups_append, List.eraseDups_append, List.removeAll, List.removeAll,
    List.filter_append, hnone, List.nil_append]

theorem eraseDups_concat [BEq β] [LawfulBEq β] [DecidableEq β] (xs : List β) (x : β) :
    (xs ++ [x]).eraseDups = if x ∈ xs then xs.eraseDups else xs.eraseDups ++ [x] := by
  rw [List.eraseDups_append]
  by_cases hx : x ∈ xs <;> simp [List.removeAll, List.eraseDups_cons, hx]

/-- Where keys are told apart, a search from the end finds whatever has the key. -/
theorem find?_reverse_of_nodup_keys [BEq κ] [LawfulBEq κ] {key : β → κ} {xs : List β}
    (h : (xs.map key).Nodup) {x : β} (hx : x ∈ xs) :
    xs.reverse.find? (key · == key x) = some x := by
  have hfound : (xs.reverse.find? (key · == key x)).isSome :=
    List.find?_isSome.2 ⟨x, List.mem_reverse.2 hx, beq_self_eq_true (key x)⟩
  obtain ⟨y, hy⟩ := Option.isSome_iff_exists.1 hfound
  have hkey : key y = key x := by simpa using List.find?_some hy
  have hm := List.mem_reverse.1 (List.mem_of_find?_eq_some hy)
  rw [hy, List.inj_on_of_nodup_map h hm hx hkey]

section

variable {α β γ δ : Type} {f : α → β → γ} {u : γ → δ} {as : List α} {bs : List β}

theorem exists_of_mem_zipWith {c : γ} (h : c ∈ List.zipWith f as bs) :
    ∃ a ∈ as, ∃ b, c = f a b := by
  rw [← List.map_uncurry_zip_eq_zipWith] at h
  obtain ⟨⟨a, b⟩, hp, rfl⟩ := List.mem_map.1 h
  exact ⟨a, (List.of_mem_zip hp).1, b, rfl⟩

/-- What is left of each member when it is joined to one of another list. -/
theorem map_zipWith_of_mem {v : α → δ} (hf : ∀ a ∈ as, ∀ b, u (f a b) = v a)
    (h : bs.length = as.length) : (List.zipWith f as bs).map u = as.map v := by
  induction as generalizing bs with
  | nil => rfl
  | cons a as ih =>
      obtain ⟨ha, has⟩ := List.forall_mem_cons.1 hf
      cases bs with
      | nil => simp at h
      | cons b bs =>
          rw [List.zipWith_cons_cons, List.map_cons, List.map_cons, ha, ih has (by simpa using h)]

theorem map_zipWith_left {v : α → δ} (hf : ∀ a b, u (f a b) = v a) (h : bs.length = as.length) :
    (List.zipWith f as bs).map u = as.map v :=
  map_zipWith_of_mem (fun a _ => hf a) h

theorem map_zipWith_right {v : β → δ} (hf : ∀ a b, u (f a b) = v b) (h : bs.length = as.length) :
    (List.zipWith f as bs).map u = bs.map v := by
  rw [List.zipWith_comm]
  exact map_zipWith_left (fun b a => hf a b) h.symm

theorem zipWith_congr_left {g : α → β → γ} (h : ∀ a ∈ as, f a = g a) :
    List.zipWith f as bs = List.zipWith g as bs := by
  induction as generalizing bs with
  | nil => rfl
  | cons a as ih =>
      obtain ⟨ha, has⟩ := List.forall_mem_cons.1 h
      cases bs with
      | nil => rfl
      | cons b bs => rw [List.zipWith_cons_cons, List.zipWith_cons_cons, ha, ih has]

end

theorem map_snd_zipIdx (xs : List β) : xs.zipIdx.map Prod.snd = List.range xs.length := by
  rw [List.zipIdx_map_snd, List.range_eq_range']

/-- Only the member at the position that is set is another one. -/
theorem zipIdx_set (xs : List β) (k n : Nat) (x : β) :
    (xs.set k x).zipIdx n = (xs.zipIdx n).map fun p => if p.2 = n + k then (x, p.2) else p := by
  refine List.ext_getElem? fun i => ?_
  rw [List.getElem?_map, List.getElem?_zipIdx, List.getElem?_zipIdx, List.getElem?_set]
  by_cases hk : k = i
  · subst hk
    by_cases hlt : k < xs.length <;> simp [hlt]
  · have hne : ¬ n + i = n + k := by omega
    simp only [if_neg hk, Option.map_map]
    refine Option.map_congr fun y _ => ?_
    simp only [Function.comp_apply, if_neg hne]

theorem map_getElem?_range (l : List α) :
    (List.range l.length).map (l[·]?) = l.map some := by
  refine List.ext_getElem? fun i => ?_
  by_cases hi : i < l.length <;> simp [hi]

theorem map_snd_filter_zipIdx_sublist (p : β × Nat → Bool) (xs : List β) :
    ((xs.zipIdx.filter p).map Prod.snd).Sublist (List.range xs.length) := by
  rw [← map_snd_zipIdx]
  exact List.filter_sublist.map _

def positionsOf (q : β → Bool) (xs : List β) : List Nat :=
  (xs.zipIdx.filter fun p => q p.1).map Prod.snd

theorem mem_positionsOf {q : β → Bool} {xs : List β} {k : Nat} :
    k ∈ positionsOf q xs ↔ ∃ x, xs[k]? = some x ∧ q x := by
  rw [positionsOf, List.mem_map]
  constructor
  · rintro ⟨⟨x, i⟩, hp, rfl⟩
    obtain ⟨hx, hq⟩ := List.mem_filter.1 hp
    exact ⟨x, List.mem_zipIdx_iff_getElem?.1 hx, hq⟩
  · rintro ⟨x, hx, hq⟩
    exact ⟨(x, k), List.mem_filter.2 ⟨List.mem_zipIdx_iff_getElem?.2 hx, hq⟩, rfl⟩

theorem pairwise_positionsOf (q : β → Bool) (xs : List β) :
    (positionsOf q xs).Pairwise (· < ·) :=
  List.pairwise_lt_range.sublist (map_snd_filter_zipIdx_sublist _ xs)

theorem map_getElem?_positionsOf (q : β → Bool) (xs : List β) :
    (positionsOf q xs).map (xs[·]?) = (xs.filter q).map some := by
  have hx : xs.zipIdx.map Prod.fst = xs := List.zipIdx_map_fst 0 xs
  conv => rhs; rw [← hx, List.filter_map, List.map_map]
  rw [positionsOf, List.map_map]
  exact List.map_congr_left fun p hp => List.mem_zipIdx_iff_getElem?.1 (List.mem_filter.1 hp).1

section

variable {p : β → Bool} {xs : List β}

/-- Where a member of a list stands when only some are left. -/
def standing (p : β → Bool) (xs : List β) (k : Nat) : Nat := (xs.take k).countP p

theorem zipIdx_filter (p : β → Bool) (xs : List β) :
    (xs.filter p).zipIdx =
      (xs.zipIdx.filter fun q => p q.1).map fun q => (q.1, standing p xs q.2) := by
  induction xs using List.reverseRecOn with
  | nil => rfl
  | append_singleton xs x ih =>
      have hstanding : ∀ q ∈ xs.zipIdx.filter fun q => p q.1,
          (q.1, standing p xs q.2) = (q.1, standing p (xs ++ [x]) q.2) := by
        intro q hq
        have hlt := List.snd_lt_of_mem_zipIdx (List.mem_of_mem_filter hq)
        rw [standing, standing, List.take_append_of_le_length (by omega)]
      have hlast : standing p (xs ++ [x]) xs.length = (xs.filter p).length := by
        rw [standing, List.take_left, List.countP_eq_length_filter]
      rw [List.filter_append, List.zipIdx_append, ih, List.zipIdx_append, List.filter_append,
        List.map_append, List.map_congr_left hstanding]
      cases hx : p x <;> simp [hx, hlast]

theorem getElem?_filter_standing {k : Nat} {x : β} (hk : xs[k]? = some x) (hx : p x) :
    (xs.filter p)[standing p xs k]? = some x := by
  have hm : (x, standing p xs k) ∈ (xs.filter p).zipIdx := by
    rw [zipIdx_filter]
    exact List.mem_map.2 ⟨(x, k), List.mem_filter.2 ⟨List.mem_zipIdx_iff_getElem?.2 hk, hx⟩, rfl⟩
  exact List.mem_zipIdx_iff_getElem?.1 hm

theorem standing_lt {j k : Nat} {x : β} (hj : xs[j]? = some x) (hx : p x) (h : j < k) :
    standing p xs j < standing p xs k := by
  have hlt := (List.getElem?_eq_some_iff.1 hj).1
  have hsucc : standing p xs (j + 1) = standing p xs j + 1 := by
    rw [standing, List.take_add_one, hj, List.countP_append, standing]
    simp [hx]
  have hle : standing p xs (j + 1) ≤ standing p xs k :=
    (List.take_prefix_take_left h).sublist.countP_le
  omega

theorem standing_le_iff {j k : Nat} {x y : β} (hj : xs[j]? = some x) (hx : p x)
    (hk : xs[k]? = some y) (hy : p y) : standing p xs j ≤ standing p xs k ↔ j ≤ k := by
  constructor
  · intro h
    by_contra hn
    have hlt := standing_lt hk hy (Nat.lt_of_not_le hn)
    omega
  · intro h
    rcases Nat.eq_or_lt_of_le h with rfl | h
    · exact le_rfl
    · exact (standing_lt hj hx h).le

theorem exists_of_getElem?_filter {k : Nat} {x : β} (h : (xs.filter p)[k]? = some x) :
    ∃ i, xs[i]? = some x ∧ p x ∧ standing p xs i = k := by
  have hm : (x, k) ∈ (xs.filter p).zipIdx := List.mem_zipIdx_iff_getElem?.2 h
  rw [zipIdx_filter] at hm
  obtain ⟨⟨y, i⟩, hy, he⟩ := List.mem_map.1 hm
  cases he
  obtain ⟨hy, hp⟩ := List.mem_filter.1 hy
  exact ⟨i, List.mem_zipIdx_iff_getElem?.1 hy, hp, rfl⟩

theorem standing_map {γ : Type} (q : γ → Bool) (f : β → γ) (xs : List β) (k : Nat) :
    standing q (xs.map f) k = standing (q ∘ f) xs k := by
  rw [standing, ← List.map_take, List.countP_map, standing]

end

/-- The members of a list that stand in another are that other list in a new order. -/
theorem filter_contains_perm [BEq β] [LawfulBEq β] {xs ys : List β} (hx : xs.Nodup)
    (hy : ys.Nodup) (hs : ∀ y ∈ ys, y ∈ xs) : (xs.filter ys.contains).Perm ys := by
  refine (List.perm_ext_iff_of_nodup (hx.filter _) hy).2 fun y => ?_
  simp only [List.mem_filter, List.contains_iff_mem]
  exact ⟨And.right, fun h => ⟨hs y h, h⟩⟩

/-- What is sorted into buckets by a key, with what has no key at the end, is all there was. -/
theorem buckets_perm [DecidableEq κ] (key : β → Option κ) {keys : List κ} (hk : keys.Nodup)
    (xs : List β) (hx : ∀ x ∈ xs, ∀ a, key x = some a → a ∈ keys) :
    ((keys.flatMap fun a => xs.filter fun x => key x == some a) ++
      xs.filter fun x => (key x).isNone).Perm xs := by
  induction keys generalizing xs with
  | nil =>
      have hn : ∀ x ∈ xs, (key x).isNone = true := by
        intro x hm
        cases h : key x with
        | none => rfl
        | some a => exact absurd (hx x hm a h) List.not_mem_nil
      rw [List.flatMap_nil, List.nil_append, List.filter_eq_self.2 hn]
  | cons a keys ih =>
      obtain ⟨ha, hk⟩ := List.nodup_cons.1 hk
      let others := xs.filter fun x => !(key x == some a)
      have hsame : ∀ b ∈ keys, (others.filter fun x => key x == some b) =
          xs.filter fun x => key x == some b := by
        intro b hb
        have hne : b ≠ a := fun he => ha (he ▸ hb)
        rw [List.filter_filter]
        refine List.filter_congr fun x _ => ?_
        by_cases h : key x = some b <;> simp [h, hne]
      have hnone : (others.filter fun x => (key x).isNone) =
          xs.filter fun x => (key x).isNone := by
        rw [List.filter_filter]
        refine List.filter_congr fun x _ => ?_
        cases key x <;> simp
      have hrest := ih hk others (by
        intro x hm b hb
        obtain ⟨hm, hne⟩ := List.mem_filter.1 hm
        rcases List.mem_cons.1 (hx x hm b hb) with rfl | h
        · simp [hb] at hne
        · exact h)
      rw [List.flatMap_congr hsame, hnone] at hrest
      rw [List.flatMap_cons, List.append_assoc]
      exact (hrest.append_left _).trans (List.filter_append_perm _ xs)

/-- The groups hold each number below `n`, all together once. -/
def Partitions (groups : List (List Nat)) (n : Nat) : Prop := groups.flatten.Perm (List.range n)

namespace Partitions

variable {groups : List (List Nat)} {n : Nat}

theorem mem_flatten (h : Partitions groups n) {i : Nat} : i ∈ groups.flatten ↔ i < n := by
  rw [h.mem_iff, List.mem_range]

theorem lt (h : Partitions groups n) {group : List Nat} (hg : group ∈ groups) {i : Nat}
    (hi : i ∈ group) : i < n :=
  h.mem_flatten.1 (List.mem_flatten.2 ⟨group, hg, hi⟩)

theorem nodup_flatten (h : Partitions groups n) : groups.flatten.Nodup :=
  h.nodup_iff.2 List.nodup_range

theorem nodup (h : Partitions groups n) {group : List Nat} (hg : group ∈ groups) : group.Nodup :=
  (List.nodup_flatten.1 h.nodup_flatten).1 group hg

/-- The groups that two positions name are the same when they share a member. -/
theorem index_unique (h : Partitions groups n) {j k i : Nat} {g g' : List Nat}
    (hj : groups[j]? = some g) (hk : groups[k]? = some g') (hi : i ∈ g) (hi' : i ∈ g') :
    j = k := by
  by_contra hne
  obtain ⟨hjl, rfl⟩ := List.getElem?_eq_some_iff.1 hj
  obtain ⟨hkl, rfl⟩ := List.getElem?_eq_some_iff.1 hk
  have hd := List.pairwise_iff_getElem.1 (List.nodup_flatten.1 h.nodup_flatten).2
  rcases Nat.lt_or_gt_of_ne hne with hlt | hlt
  · exact hd j k hjl hkl hlt hi hi'
  · exact hd k j hkl hjl hlt hi' hi

theorem exists_index (h : Partitions groups n) {i : Nat} (hi : i < n) :
    ∃ (j : Nat) (g : List Nat), groups[j]? = some g ∧ i ∈ g := by
  obtain ⟨g, hg, hm⟩ := List.mem_flatten.1 (h.mem_flatten.2 hi)
  obtain ⟨j, hj⟩ := List.mem_iff_getElem?.1 hg
  exact ⟨j, g, hj, hm⟩

end Partitions

end Drafting
