import Drafting.Proofs.Page.ActorGroups
import Mathlib.Data.List.GetD
import Mathlib.Logic.Function.Iterate
import Mathlib.Logic.Relation

namespace Drafting

/-- Where every step either changes nothing or makes a measure smaller, so does a whole run. -/
theorem foldl_fixed_or_lt {σ β : Type} {f : σ → β → σ} {size : σ → Nat}
    (h : ∀ s x, f s x = s ∨ size (f s x) < size s) (xs : List β) (s : σ) :
    ((∀ x ∈ xs, f s x = s) ∧ xs.foldl f s = s) ∨ size (xs.foldl f s) < size s := by
  induction xs generalizing s with
  | nil => exact .inl ⟨fun x hx => absurd hx List.not_mem_nil, rfl⟩
  | cons x xs ih =>
      rw [List.foldl_cons]
      rcases h s x with hx | hx
      · rw [hx]
        exact (ih s).imp_left fun ⟨hxs, hfold⟩ => ⟨List.forall_mem_cons.2 ⟨hx, hxs⟩, hfold⟩
      · right
        rcases ih (f s x) with ⟨-, hfold⟩ | hlt
        · rwa [hfold]
        · exact hlt.trans hx

namespace Graph

def linksBetween (g : Graph) (i j : Nat) : Nat := g.arcs.countP fun a => a = (i, j) ∨ a = (j, i)

variable {g : Graph} {i j : Nat}

theorem count_neighbours (h : i ≠ j) : (g.neighbours i).count j = g.linksBetween i j := by
  rw [neighbours, linksBetween]
  induction g.arcs with
  | nil => rfl
  | cons a arcs ih =>
      obtain ⟨k, l⟩ := a
      rw [List.flatMap_cons, List.count_append, List.countP_cons, ih, Nat.add_comm]
      congr 1
      by_cases hk : k = i <;> by_cases hl : l = i <;> by_cases hk' : k = j <;>
        by_cases hl' : l = j <;> simp_all

theorem linksBetween_pos (h : i ≠ j) : 0 < g.linksBetween i j ↔ j ∈ g.neighbours i := by
  rw [← count_neighbours h, List.count_pos_iff]

def Joins (g : Graph) (p : Nat → Prop) : Nat → Nat → Prop :=
  Relation.ReflTransGen fun i j => p i ∧ p j ∧ 0 < g.linksBetween i j

theorem Joins.mono {p q : Nat → Prop} (h : g.Joins p i j) (hpq : ∀ k, p k → q k) :
    g.Joins q i j :=
  Relation.ReflTransGen.mono (fun _ _ hs => ⟨hpq _ hs.1, hpq _ hs.2.1, hs.2.2⟩) _ _ h

end Graph

namespace Page

structure IsStrongest (g : Graph) (actors : List Nat) (i a : Nat) : Prop where
  mem : a ∈ actors
  linked : 0 < g.linksBetween i a
  most : ∀ b ∈ actors, g.linksBetween i b ≤ g.linksBetween i a
  first : ∀ b ∈ actors, b < a → g.linksBetween i b < g.linksBetween i a

theorem IsStrongest.unique {g : Graph} {actors : List Nat} {i a b : Nat}
    (h : IsStrongest g actors i a) (h' : IsStrongest g actors i b) : a = b := by
  by_contra hne
  rcases Nat.lt_or_gt_of_ne hne with hlt | hlt
  · exact absurd (h'.first a h.mem hlt) (Nat.not_lt.2 (h.most b h'.mem))
  · exact absurd (h.first b h'.mem hlt) (Nat.not_lt.2 (h'.most a h.mem))

namespace Owners

variable {g : Graph} {actors : List Nat} {owners : Owners} {i j a : Nat}

section

def better (g : Graph) (i : Nat) (best : Option (Nat × Nat)) (a : Nat) : Option (Nat × Nat) :=
  let links := (g.neighbours i).count a
  let most := match best with
    | some (_, most) => most
    | none => 0
  if most < links then some (a, links) else best

theorem strongest_eq (g : Graph) (actors : List Nat) (i : Nat) :
    strongest g actors i = (actors.foldl (better g i) none).map Prod.fst := rfl

def IsBest (g : Graph) (actors : List Nat) (i : Nat) : Option (Nat × Nat) → Prop
  | none => ∀ b ∈ actors, g.linksBetween i b = 0
  | some (a, links) => IsStrongest g actors i a ∧ links = g.linksBetween i a

theorem IsBest.better {best : Option (Nat × Nat)} (h : IsBest g actors i best)
    (hlast : ∀ b ∈ actors, b < a) (hi : i ≠ a) :
    IsBest g (actors ++ [a]) i (better g i best a) := by
  have hmem {p : Nat → Prop} (hp : ∀ b ∈ actors, p b) (ha : p a) : ∀ b ∈ actors ++ [a], p b :=
    List.forall_mem_append.2 ⟨hp, List.forall_mem_singleton.2 ha⟩
  cases best with
  | none =>
      change IsBest g _ i (if 0 < (g.neighbours i).count a then some (a, _) else none)
      rw [Graph.count_neighbours hi]
      split
      next hlt =>
        refine ⟨⟨by simp, hlt, hmem ?_ le_rfl, hmem ?_ fun hb => absurd hb (lt_irrefl a)⟩, rfl⟩
        · exact fun b hb => (h b hb).trans_le (Nat.zero_le _)
        · exact fun b hb _ => (h b hb).trans_lt hlt
      next hlt => exact hmem h (Nat.eq_zero_of_not_pos hlt)
  | some p =>
      obtain ⟨b, links⟩ := p
      obtain ⟨hb, rfl⟩ := h
      change IsBest g _ i (if g.linksBetween i b < (g.neighbours i).count a then some (a, _)
        else some (b, g.linksBetween i b))
      rw [Graph.count_neighbours hi]
      split
      next hlt =>
        refine ⟨⟨by simp, hb.linked.trans hlt, hmem ?_ le_rfl, hmem ?_ ?_⟩, rfl⟩
        · exact fun c hc => (hb.most c hc).trans hlt.le
        · exact fun c hc _ => (hb.most c hc).trans_lt hlt
        · exact fun ha => absurd ha (lt_irrefl a)
      next hlt =>
        refine ⟨⟨List.mem_append_left _ hb.mem, hb.linked, hmem hb.most (Nat.not_lt.1 hlt), ?_⟩,
          rfl⟩
        exact hmem hb.first fun hab => absurd hab (hlast b hb.mem).asymm

theorem isBest_foldl (hs : actors.Pairwise (· < ·)) (hi : i ∉ actors) :
    IsBest g actors i (actors.foldl (better g i) none) := by
  induction actors using List.reverseRecOn with
  | nil => exact fun b hb => absurd hb List.not_mem_nil
  | append_singleton actors a ih =>
      obtain ⟨hs, -, hlast⟩ := List.pairwise_append.1 hs
      rw [List.mem_append, List.mem_singleton, not_or] at hi
      rw [List.foldl_concat]
      exact (ih hs hi.1).better (fun b hb => hlast b hb a List.mem_cons_self) hi.2

theorem strongest_eq_some_iff (hs : actors.Pairwise (· < ·)) (hi : i ∉ actors) :
    strongest g actors i = some a ↔ IsStrongest g actors i a := by
  have hbest := isBest_foldl (g := g) hs hi
  rw [strongest_eq]
  cases hf : actors.foldl (better g i) none with
  | none =>
      rw [hf] at hbest
      rw [Option.map_none, iff_false_left (by simp)]
      exact fun h => absurd (hbest a h.mem) h.linked.ne'
  | some p =>
      rw [hf] at hbest
      rw [Option.map_some, Option.some_inj]
      exact ⟨fun h => h ▸ hbest.1, fun h => hbest.1.unique h⟩

theorem exists_isStrongest_iff (hs : actors.Pairwise (· < ·)) (hi : i ∉ actors) :
    (∃ a, IsStrongest g actors i a) ↔ ∃ a ∈ actors, 0 < g.linksBetween i a := by
  refine ⟨fun ⟨a, h⟩ => ⟨a, h.mem, h.linked⟩, fun ⟨b, hb, hlinked⟩ => ?_⟩
  have hbest := isBest_foldl (g := g) hs hi
  cases hf : actors.foldl (better g i) none with
  | none =>
      rw [hf] at hbest
      exact absurd (hbest b hb) hlinked.ne'
  | some p =>
      rw [hf] at hbest
      exact ⟨p.1, hbest.1⟩

end

section

def adopt (g : Graph) (actors : List Nat) (owners : Owners) (i : Nat) : Owners :=
  if actors.contains i || (owners.getD i none).isSome then owners
  else owners.set i (inherited g actors owners i)

theorem sweep_eq (g : Graph) (actors : List Nat) (owners : Owners) :
    sweep g actors owners = g.nodes.foldl (adopt g actors) owners := rfl

theorem unowned_set (hi : i < owners.length) (ho : owners.getD i none = none) (a : Nat) :
    unowned (owners.set i (some a)) < unowned owners := by
  have hget : owners[i] = none := by rwa [List.getD_eq_getElem _ _ hi] at ho
  have hpos : 0 < unowned owners :=
    List.countP_pos_iff.2 ⟨_, List.getElem_mem hi, by rw [hget]; rfl⟩
  rw [unowned] at hpos ⊢
  rw [unowned, List.countP_set hi, hget]
  simp only [Option.isNone_none, Option.isNone_some, if_true, Bool.false_eq_true, if_false]
  omega

theorem set_eq_self (ho : owners.getD i none = none) : owners.set i none = owners := by
  by_cases hi : i < owners.length
  · rw [List.getD_eq_getElem _ _ hi] at ho
    rw [← ho, List.set_getElem_self]
  · exact List.set_eq_of_length_le (Nat.not_lt.1 hi)

theorem adopt_fixed_or_lt (g : Graph) (actors : List Nat) (owners : Owners) (i : Nat) :
    adopt g actors owners i = owners ∨ unowned (adopt g actors owners i) < unowned owners := by
  rw [adopt]
  split
  · exact .inl rfl
  next h =>
    rw [Bool.or_eq_true, not_or, Option.not_isSome_iff_eq_none] at h
    cases inherited g actors owners i with
    | none => exact .inl (set_eq_self h.2)
    | some a =>
        by_cases hi : i < owners.length
        · exact .inr (unowned_set hi h.2 a)
        · exact .inl (List.set_eq_of_length_le (Nat.not_lt.1 hi))

/-- A pass that leaves as many nodes without an owner as there were changes nothing, wherever it
has come to. -/
theorem sweep_eq_self (h : ¬ unowned (sweep g actors owners) < unowned owners) :
    (∀ i ∈ g.nodes, adopt g actors owners i = owners) ∧ sweep g actors owners = owners :=
  (foldl_fixed_or_lt (adopt_fixed_or_lt g actors) g.nodes owners).resolve_right h

/-- Passes go on as long as each finds an owner for some node, and no longer. -/
theorem exists_settle_eq (g : Graph) (actors : List Nat) (owners : Owners) :
    ∃ n ≤ unowned owners, settle g actors owners = (sweep g actors)^[n] owners ∧
      (∀ k < n, unowned ((sweep g actors)^[k + 1] owners) <
        unowned ((sweep g actors)^[k] owners)) ∧
      sweep g actors (settle g actors owners) = settle g actors owners := by
  induction owners using settle.induct g actors with
  | case1 owners next hlt ih =>
      obtain ⟨n, hn, hsettle, hless, hfixed⟩ := ih
      rw [settle, if_pos hlt]
      refine ⟨n + 1, Nat.succ_le_of_lt (hn.trans_lt hlt), ?_, ?_, hfixed⟩
      · rwa [Function.iterate_succ_apply]
      · intro k hk
        cases k with
        | zero => exact hlt
        | succ k => exact hless k (Nat.lt_of_succ_lt_succ hk)
  | case2 owners next hlt =>
      rw [settle, if_neg hlt]
      exact ⟨0, Nat.zero_le _, rfl, fun k hk => absurd hk (Nat.not_lt_zero k),
        (sweep_eq_self hlt).2⟩

end

section

/-- Owners are those of the strongest actors and of neighbours that have the same owner, and so on
back to a use case whose strongest actor it is. -/
structure Justified (g : Graph) (actors : List Nat) (owners : Owners) : Prop where
  length : owners.length = g.size
  actor : ∀ i ∈ actors, owners.getD i none = none
  strongest : ∀ i < g.size, i ∉ actors → ∀ a, IsStrongest g actors i a →
    owners.getD i none = some a
  path : ∀ i a, owners.getD i none = some a → ∃ j, owners.getD j none = some a ∧
    IsStrongest g actors j a ∧ g.Joins (fun k => owners.getD k none = some a) i j

theorem getD_direct (hi : i < g.size) :
    (direct g actors).getD i none = if actors.contains i then none else strongest g actors i := by
  rw [direct, Graph.nodes, List.getD_eq_getElem?_getD, List.getElem?_map, List.getElem?_range hi]
  rfl

theorem lt_of_getD (h : owners.getD i none = some a) : i < owners.length := by
  by_contra hi
  rw [List.getD_eq_default _ _ (Nat.not_lt.1 hi)] at h
  cases h

theorem justified_direct (hs : actors.Pairwise (· < ·)) :
    Justified g actors (direct g actors) := by
  have hlength : (direct g actors).length = g.size := by simp [direct, Graph.nodes]
  constructor
  case length => exact hlength
  case actor =>
    intro i hi
    by_cases hlt : i < g.size
    · rw [getD_direct hlt, if_pos (List.contains_iff_mem.2 hi)]
    · exact List.getD_eq_default _ _ (hlength ▸ Nat.not_lt.1 hlt)
  case strongest =>
    intro i hlt hi a ha
    rw [getD_direct hlt, if_neg (mt List.contains_iff_mem.1 hi)]
    exact (strongest_eq_some_iff hs hi).2 ha
  case path =>
    intro i a ha
    have hlt : i < g.size := hlength ▸ lt_of_getD ha
    refine ⟨i, ha, ?_, .refl⟩
    rw [getD_direct hlt] at ha
    split at ha
    next => cases ha
    next hi => exact (strongest_eq_some_iff hs (mt List.contains_iff_mem.2 hi)).1 ha

theorem exists_of_inherited (h : inherited g actors owners i = some a) :
    ∃ j ∈ g.neighbours i, j ∉ actors ∧ owners.getD j none = some a := by
  obtain ⟨j, hj, hja⟩ := List.exists_of_findSome?_eq_some h
  split at hja
  next => cases hja
  next hn => exact ⟨j, hj, mt List.contains_iff_mem.2 hn, hja⟩

theorem Justified.adopt (h : Justified g actors owners) (i : Nat) :
    Justified g actors (adopt g actors owners i) := by
  rw [Owners.adopt]
  split
  · exact h
  next hi =>
    rw [Bool.or_eq_true, not_or, Option.not_isSome_iff_eq_none, List.contains_iff_mem] at hi
    obtain ⟨hactor, hnone⟩ := hi
    have hother {k : Nat} (hk : k ≠ i) (o : Option Nat) :
        (owners.set i o).getD k none = owners.getD k none := by
      rw [List.getD_eq_getElem?_getD, List.getElem?_set_ne hk.symm, ← List.getD_eq_getElem?_getD]
    have hkeep {k a : Nat} (o : Option Nat) (hk : owners.getD k none = some a) :
        (owners.set i o).getD k none = some a := by
      rw [hother _ o, hk]
      rintro rfl
      rw [hnone] at hk
      cases hk
    constructor
    case length => rw [List.length_set, h.length]
    case actor =>
      intro k hk
      rw [hother fun he => hactor (he ▸ hk), h.actor k hk]
    case strongest => exact fun k hlt hk a ha => hkeep _ (h.strongest k hlt hk a ha)
    case path =>
      intro k a hk
      by_cases hki : k = i
      · subst hki
        have hlt : k < owners.length := List.length_set ▸ lt_of_getD hk
        have hinherited : inherited g actors owners k = some a := by
          rwa [List.getD_eq_getElem?_getD, List.getElem?_set_self hlt] at hk
        obtain ⟨l, hl, -, hla⟩ := exists_of_inherited hinherited
        obtain ⟨j, hja, hstrong, hpath⟩ := h.path l a hla
        have hne : k ≠ l := by
          rintro rfl
          rw [hnone] at hla
          cases hla
        refine ⟨j, hkeep _ hja, hstrong, ?_⟩
        refine .head ⟨hk, hkeep _ hla, (Graph.linksBetween_pos hne).2 hl⟩ ?_
        exact hpath.mono fun m hm => hkeep _ hm
      · rw [hother hki] at hk
        obtain ⟨j, hja, hstrong, hpath⟩ := h.path k a hk
        exact ⟨j, hkeep _ hja, hstrong, hpath.mono fun m hm => hkeep _ hm⟩

theorem Justified.sweep (h : Justified g actors owners) :
    Justified g actors (sweep g actors owners) := by
  rw [sweep_eq]
  exact List.foldlRecOn g.nodes (Owners.adopt g actors) h fun _ h i _ => h.adopt i

theorem Justified.settle (h : Justified g actors owners) :
    Justified g actors (settle g actors owners) :=
  settle_of_sweep (fun _ => Justified.sweep) h

theorem adopt_settle (g : Graph) (actors : List Nat) (owners : Owners) :
    ∀ i ∈ g.nodes, adopt g actors (settle g actors owners) i = settle g actors owners := by
  obtain ⟨-, -, -, -, hfixed⟩ := exists_settle_eq g actors owners
  refine (sweep_eq_self ?_).1
  rw [hfixed]
  exact lt_irrefl _

/-- Once passes have come to an end, a use case without an owner has no neighbour with one. -/
theorem getD_eq_none_of_adopt (h : adopt g actors owners i = owners) (hi : i < owners.length)
    (ha : i ∉ actors) (ho : owners.getD i none = none) :
    ∀ j ∈ g.neighbours i, j ∉ actors → owners.getD j none = none := by
  intro j hj hja
  have hskip : ¬ (actors.contains i || (owners.getD i none).isSome) = true := by
    rw [ho]
    simpa using ha
  rw [adopt, if_neg hskip] at h
  have hinherited : inherited g actors owners i = none := by
    have hget : (owners.set i (inherited g actors owners i)).getD i none = none := by rw [h, ho]
    rwa [List.getD_eq_getElem?_getD, List.getElem?_set_self hi] at hget
  have hnone := List.findSome?_eq_none_iff.1 hinherited j hj
  rwa [if_neg (mt List.contains_iff_mem.1 hja)] at hnone

end

end Owners

section

def IsCase (g : Graph) (actors : List Nat) (i : Nat) : Prop := i < g.size ∧ i ∉ actors

/-- Use cases in the families of actors. One that is linked to actors is in the family of its
strongest; another one is in a family just if a path through use cases leads to such a one, and then
such a path stays inside the family. -/
structure IsGrouping (g : Graph) (actors : List Nat) (family : Nat → List Nat)
    (orphans : List Nat) : Prop where
  inOrder : ∀ a, (family a).Pairwise (· < ·)
  isCase : ∀ a, ∀ i ∈ family a, IsCase g actors i
  single : ∀ a b i, i ∈ family a → i ∈ family b → a = b
  strongest : ∀ i a, IsCase g actors i → IsStrongest g actors i a → i ∈ family a
  linked : ∀ i, IsCase g actors i → (∃ a ∈ actors, 0 < g.linksBetween i a) →
    ∃ a, IsStrongest g actors i a
  follows : ∀ i, IsCase g actors i → ((∃ a ∈ actors, i ∈ family a) ↔
    ∃ j, IsCase g actors j ∧ (∃ a ∈ actors, 0 < g.linksBetween j a) ∧
      g.Joins (IsCase g actors) i j)
  inside : ∀ a, ∀ i ∈ family a, ∃ j ∈ family a, IsStrongest g actors j a ∧
    g.Joins (· ∈ family a) i j
  orphans : orphans = g.nodes.filter fun i => i ∉ actors ∧ ∀ a ∈ actors, i ∉ family a

variable {g : Graph} {actors : List Nat} {owners : Owners} {i a : Nat}

def familyOf (g : Graph) (actors : List Nat) (owners : Owners) (a : Nat) : List Nat :=
  (g.nodes.filter fun i => !actors.contains i).filter fun i => owners.getD i none == some a

def orphansOf (g : Graph) (actors : List Nat) (owners : Owners) : List Nat :=
  (g.nodes.filter fun i => !actors.contains i).filter fun i => (owners.getD i none).isNone

namespace Owners.Justified

theorem isCase (h : Justified g actors owners) (hi : owners.getD i none = some a) :
    IsCase g actors i := by
  refine ⟨h.length ▸ lt_of_getD hi, fun ha => ?_⟩
  rw [h.actor i ha] at hi
  cases hi

theorem mem_familyOf_iff (h : Justified g actors owners) :
    i ∈ familyOf g actors owners a ↔ owners.getD i none = some a := by
  rw [familyOf, List.mem_filter, beq_iff_eq]
  refine and_iff_right_of_imp fun hi => ?_
  obtain ⟨hlt, ha⟩ := h.isCase hi
  exact List.mem_filter.2 ⟨List.mem_range.2 hlt, by simpa using ha⟩

theorem mem_actors (h : Justified g actors owners) (hi : owners.getD i none = some a) :
    a ∈ actors := by
  obtain ⟨j, -, hstrong, -⟩ := h.path i a hi
  exact hstrong.mem

theorem exists_owner_of_joins (h : Justified g actors owners)
    (hclosed : ∀ i ∈ g.nodes, Owners.adopt g actors owners i = owners) {j : Nat}
    (hpath : g.Joins (IsCase g actors) i j) (hj : ∃ a, owners.getD j none = some a) :
    ∃ a, owners.getD i none = some a := by
  induction hpath using Relation.ReflTransGen.head_induction_on with
  | refl => exact hj
  | @head k l hstep _ ih =>
      obtain ⟨⟨hlt, hk⟩, ⟨-, hl⟩, hlinks⟩ := hstep
      obtain ⟨b, hb⟩ := ih
      by_cases hkl : k = l
      · exact ⟨b, hkl ▸ hb⟩
      · rw [← Option.isSome_iff_exists, ← Option.ne_none_iff_isSome]
        intro hnone
        have hadopt := hclosed k (List.mem_range.2 hlt)
        have hneighbours := getD_eq_none_of_adopt hadopt (h.length ▸ hlt) hk hnone l
          ((Graph.linksBetween_pos hkl).1 hlinks) hl
        rw [hneighbours] at hb
        cases hb

theorem isGrouping (h : Justified g actors owners) (hs : actors.Pairwise (· < ·))
    (hclosed : ∀ i ∈ g.nodes, Owners.adopt g actors owners i = owners) :
    IsGrouping g actors (familyOf g actors owners) (orphansOf g actors owners) := by
  have hinside : ∀ a, ∀ i ∈ familyOf g actors owners a, ∃ j ∈ familyOf g actors owners a,
      IsStrongest g actors j a ∧ g.Joins (· ∈ familyOf g actors owners a) i j := by
    intro a i hi
    obtain ⟨j, hj, hstrong, hpath⟩ := h.path i a (h.mem_familyOf_iff.1 hi)
    exact ⟨j, h.mem_familyOf_iff.2 hj, hstrong, hpath.mono fun k hk => h.mem_familyOf_iff.2 hk⟩
  constructor
  case inOrder => exact fun a => (List.pairwise_lt_range.filter _).filter _
  case isCase => exact fun a i hi => h.isCase (h.mem_familyOf_iff.1 hi)
  case single =>
    intro a b i ha hb
    rw [h.mem_familyOf_iff] at ha hb
    exact Option.some.inj (ha.symm.trans hb)
  case strongest =>
    exact fun i a hi ha => h.mem_familyOf_iff.2 (h.strongest i hi.1 hi.2 a ha)
  case linked => exact fun i hi => (exists_isStrongest_iff hs hi.2).2
  case follows =>
    intro i hi
    constructor
    · rintro ⟨a, -, ha⟩
      obtain ⟨j, hj, hstrong, hpath⟩ := hinside a i ha
      refine ⟨j, h.isCase (h.mem_familyOf_iff.1 hj), ⟨a, hstrong.mem, hstrong.linked⟩, ?_⟩
      exact hpath.mono fun k hk => h.isCase (h.mem_familyOf_iff.1 hk)
    · rintro ⟨j, hj, hlinked, hpath⟩
      obtain ⟨b, hb⟩ := (exists_isStrongest_iff hs hj.2).2 hlinked
      obtain ⟨a, ha⟩ := h.exists_owner_of_joins hclosed hpath ⟨b, h.strongest j hj.1 hj.2 b hb⟩
      exact ⟨a, h.mem_actors ha, h.mem_familyOf_iff.2 ha⟩
  case inside => exact hinside
  case orphans =>
    rw [orphansOf, List.filter_filter]
    refine List.filter_congr fun i _ => ?_
    rw [Bool.eq_iff_iff, Bool.and_eq_true, Option.isNone_iff_eq_none, decide_eq_true_eq,
      Bool.not_eq_true', ← Bool.not_eq_true, List.contains_iff_mem, and_comm]
    refine and_congr_right fun _ => ?_
    simp only [h.mem_familyOf_iff, Option.eq_none_iff_forall_ne_some]
    exact ⟨fun hn a _ => hn a, fun hn a ha => hn a (h.mem_actors ha) ha⟩

end Owners.Justified

variable {α : Type}

/-- Owners are passed on until a pass changes nothing, which happens after no more passes than there
are nodes without an owner. Then each actor is at the head of its family, in the order of the nodes,
and the use cases of no family stand at the end. -/
theorem actorGroups_isGrouping (d : Diagram α) :
    let g := d.graph
    let actors := positionsOf (fun n : Node α => n.kind = .actor) d.nodes
    let start := Owners.direct g actors
    (∃ n ≤ Owners.unowned start, Owners.settle g actors start = (Owners.sweep g actors)^[n] start ∧
      (∀ k < n, Owners.unowned ((Owners.sweep g actors)^[k + 1] start) <
        Owners.unowned ((Owners.sweep g actors)^[k] start)) ∧
      Owners.sweep g actors (Owners.settle g actors start) = Owners.settle g actors start) ∧
    ∃ (family : Nat → List Nat) (orphans : List Nat), IsGrouping g actors family orphans ∧
      actorGroups d = actors.map (fun a => a :: family a) ++
        if orphans.isEmpty then [] else [orphans] := by
  intro g actors start
  have hs : actors.Pairwise (· < ·) := pairwise_positionsOf _ _
  have hjustified := (Owners.justified_direct (g := g) hs).settle
  exact ⟨Owners.exists_settle_eq g actors start, _, _,
    hjustified.isGrouping hs (Owners.adopt_settle g actors start), rfl⟩

end

end Page

end Drafting
