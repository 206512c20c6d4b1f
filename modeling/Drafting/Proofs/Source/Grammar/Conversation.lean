import Drafting.Proofs.Text.Scan
import Drafting.Proofs.Source.Reading

namespace Drafting.Source

open Text

/-- An arrow with one dash has no dash in front of it. -/
def IsArrow (before arrow : List Char) : Prop :=
  arrow = "-->".toList ∨ arrow = "->".toList ∧ before.getLast? ≠ some '-'

theorem IsArrow.mem {before arrow : List Char} {c : Char} (h : IsArrow before arrow)
    (hc : c ∈ arrow) : c = '-' ∨ c = '>' := by
  rcases h with rfl | ⟨rfl, -⟩ <;> simpa using hc

theorem isArrow_cons_cons {b c : Char} {before arrow : List Char} :
    IsArrow (b :: c :: before) arrow ↔ IsArrow (c :: before) arrow := by
  rw [IsArrow, IsArrow, List.getLast?_cons_cons]

namespace Conversation

variable {s before after text source target : List Char}

/-- Nothing stands in front of the first arrow of a text that an arrow begins. -/
theorem eq_nil_of_begins {arrow rest : List Char}
    (hs : before ++ (arrow ++ after) = '-' :: '>' :: rest ∨
      before ++ (arrow ++ after) = '-' :: '-' :: '>' :: rest)
    (ha : IsArrow before arrow) (hi : ¬ ['-', '>'] <:+: before) : before = [] := by
  match before with
  | [] => rfl
  | [b] =>
      rcases ha with rfl | ⟨rfl, hlast⟩
      · simp at hs
      · rcases hs with hs | hs
        · simp at hs
        · exact absurd (congrArg some (List.cons.inj hs).1) hlast
  | [b, d] =>
      rcases hs with hs | hs
      · simp only [List.cons_append, List.cons.injEq] at hs
        exact absurd ⟨[], [], by simp [hs.1, hs.2.1]⟩ hi
      · rcases ha with rfl | ⟨rfl, -⟩ <;> simp at hs
  | b :: d :: e :: t =>
      rcases hs with hs | hs <;> simp only [List.cons_append, List.cons.injEq] at hs
      · exact absurd ⟨[], e :: t, by simp [hs.1, hs.2.1]⟩ hi
      · exact absurd ⟨[b], t, by simp [hs.2.1, hs.2.2.1]⟩ hi

def Parts (s before after : List Char) : Prop :=
  ∃ arrow, s = before ++ (arrow ++ after) ∧ IsArrow before arrow ∧ ¬ ['-', '>'] <:+: before

theorem parts_of_begins {arrow rest : List Char} (ha : arrow = "-->".toList ∨ arrow = "->".toList) :
    Parts (arrow ++ rest) before after ↔ before = [] ∧ after = rest := by
  constructor
  · rintro ⟨arrow', he, ha', hi⟩
    have hb : before ++ (arrow' ++ after) = '-' :: '>' :: rest ∨
        before ++ (arrow' ++ after) = '-' :: '-' :: '>' :: rest := by
      rcases ha with rfl | rfl
      · exact .inr he.symm
      · exact .inl he.symm
    obtain rfl := eq_nil_of_begins hb ha' hi
    refine ⟨rfl, ?_⟩
    rcases ha with rfl | rfl <;> rcases ha' with rfl | ⟨rfl, -⟩ <;> simp_all
  · rintro ⟨rfl, rfl⟩
    exact ⟨arrow, rfl, ha.imp_right fun ha => ⟨ha, by simp⟩, by simp⟩

/-- Where no arrow begins, the first character stands in front of the arrow. -/
theorem parts_cons_iff {c : Char} (h : ∀ t, c :: s ≠ '-' :: '-' :: '>' :: t)
    (h' : ∀ t, c :: s ≠ '-' :: '>' :: t) :
    Parts (c :: s) before after ↔ ∃ t, before = c :: t ∧ Parts s t after := by
  constructor
  · rintro ⟨arrow, he, ha, hi⟩
    cases before with
    | nil =>
        rcases ha with rfl | ⟨rfl, -⟩
        · exact absurd he (h after)
        · exact absurd he (h' after)
    | cons b t =>
        obtain ⟨rfl, rfl⟩ := List.cons.inj he
        refine ⟨t, rfl, arrow, rfl, ?_, fun hin => hi (List.infix_cons hin)⟩
        cases t with
        | nil => exact ha.imp_right fun ha => ⟨ha.1, by simp⟩
        | cons d t => exact isArrow_cons_cons.1 ha
  · rintro ⟨t, rfl, arrow, rfl, ha, hi⟩
    refine ⟨arrow, rfl, ?_, ?_⟩
    · cases t with
      | nil =>
          refine ha.imp_right fun ha => ⟨ha.1, ?_⟩
          rw [List.getLast?_singleton, Ne, Option.some_inj]
          rintro rfl
          exact h after (by simp [ha.1])
      | cons b t => exact isArrow_cons_cons.2 ha
    · rw [List.infix_cons_iff, not_or]
      refine ⟨?_, hi⟩
      rintro ⟨t', ht⟩
      cases t with
      | nil => simp at ht
      | cons b t =>
          simp only [List.cons_append, List.cons.injEq] at ht
          obtain ⟨rfl, rfl, -⟩ := ht
          exact h' _ rfl

theorem exists_splitArrow?_iff :
    (∃ kind, splitArrow? s = some (before, kind, after)) ↔ Parts s before after := by
  fun_induction splitArrow? s generalizing before with
  | case1 => simp [Parts, IsArrow]
  | case2 s =>
      rw [show '-' :: '-' :: '>' :: s = "-->".toList ++ s from rfl, parts_of_begins (.inl rfl)]
      simp [eq_comm]
  | case3 s =>
      rw [show '-' :: '>' :: s = "->".toList ++ s from rfl, parts_of_begins (.inr rfl)]
      simp [eq_comm]
  | case4 c s h h' ih =>
      rw [parts_cons_iff (fun t he => h t (List.cons.inj he).1 (List.cons.inj he).2)
        fun t he => h' t (List.cons.inj he).1 (List.cons.inj he).2]
      constructor
      · rintro ⟨kind, hk⟩
        obtain ⟨⟨t, kind', after'⟩, hs, he⟩ := Option.map_eq_some_iff.1 hk
        cases he
        exact ⟨t, rfl, ih.1 ⟨_, hs⟩⟩
      · rintro ⟨t, rfl, ht⟩
        obtain ⟨kind, hk⟩ := ih.2 ht
        exact ⟨kind, by rw [hk]; rfl⟩

/-- A text with two sides around an arrow in front of the first colon. The first character belongs
to the source, whatever it is. -/
inductive IsMessage : List Char → List Char → List Char → Prop
  | mk {source arrow target tail : List Char} (hs : source ≠ []) (ht : target ≠ [])
      (hc : ∀ c ∈ source ++ target, c ≠ ':') (ha : IsArrow source.tail arrow)
      (hi : ¬ ['-', '>'] <:+: source.tail) (htail : ∀ c ∈ tail.head?, c = ':') :
      IsMessage (source ++ (arrow ++ (target ++ tail))) source target

theorem IsMessage.exists_head (h : IsMessage text source target) :
    ∃ c s, source = c :: s ∧ text.head? = some c := by
  obtain ⟨hs, -, -, -, -, -⟩ := h
  obtain ⟨c, s, rfl⟩ := List.exists_cons_of_ne_nil hs
  exact ⟨c, s, rfl, rfl⟩

/-- Something stands on either side of the arrow, whatever the first character is. -/
theorem exists_endsOf_iff : (∃ kind, ends? s = some (source, kind, target)) ↔
    source ≠ [] ∧ target ≠ [] ∧ ∃ arrow, s = source ++ (arrow ++ target) ∧
      IsArrow source.tail arrow ∧ ¬ ['-', '>'] <:+: source.tail := by
  constructor
  · rintro ⟨kind, h⟩
    cases s with
    | nil => cases h
    | cons c s =>
        rw [ends?] at h
        split at h
        next before kind' after hs =>
          rw [Option.ite_none_left_eq_some] at h
          obtain ⟨hne, he⟩ := h
          cases he
          obtain ⟨arrow, rfl, ha, hi⟩ := exists_splitArrow?_iff.1 ⟨_, hs⟩
          exact ⟨List.cons_ne_nil c before, by simpa using hne, arrow, rfl, ha, hi⟩
        next => cases h
  · rintro ⟨hs, ht, arrow, rfl, ha, hi⟩
    obtain ⟨c, t, rfl⟩ := List.exists_cons_of_ne_nil hs
    obtain ⟨kind, hk⟩ : ∃ kind, splitArrow? (t ++ (arrow ++ target)) = some (t, kind, target) :=
      exists_splitArrow?_iff.2 ⟨arrow, rfl, ha, hi⟩
    exact ⟨kind, by simp [ends?, hk, ht]⟩

theorem exists_ends?_iff : (∃ kind, ends? (cut ':' text).1 = some (source, kind, target)) ↔
    IsMessage text source target := by
  rw [fst_cut, exists_endsOf_iff]
  constructor
  · rintro ⟨hs, ht, arrow, he, ha, hi⟩
    have htail : ∀ c ∈ (text.dropWhile (· != ':')).head?, c = ':' :=
      fun c hc => by simpa using not_of_head?_dropWhile _ _ c hc
    have hc : ∀ c ∈ source ++ target, c ≠ ':' := fun c hc => by
      have hm : c ∈ text.takeWhile (· != ':') := by
        rw [he]
        simp only [List.mem_append] at hc ⊢
        tauto
      simpa using List.mem_takeWhile_imp hm
    rw [← List.takeWhile_append_dropWhile (p := (· != ':')) (l := text), he, List.append_assoc,
      List.append_assoc]
    exact ⟨hs, ht, hc, ha, hi, htail⟩
  · rintro ⟨hs, ht, hc, ha, hi, htail⟩
    rename_i arrow tail
    have hhead : ∀ c ∈ source ++ (arrow ++ target), (c != ':') = true := by
      intro c hm
      rw [bne_iff_ne]
      simp only [List.mem_append] at hm hc
      rcases hm with hm | hm | hm
      · exact hc c (.inl hm)
      · rcases ha.mem hm with rfl | rfl <;> decide
      · exact hc c (.inr hm)
    have hstop : ∀ c ∈ tail.head?, (c != ':') = false := by simpa using htail
    rw [← List.append_assoc arrow, ← List.append_assoc source, takeWhile_append_stop hhead hstop]
    exact ⟨hs, ht, arrow, rfl, ha, hi⟩

inductive Names : List Char → Prop
  | message {text source target : List Char} (h : IsMessage text source target)
      (hs : unquote source ≠ []) (ht : unquote target ≠ []) : Names text
  | declaration {text : List Char} (hm : ∀ source target, ¬ IsMessage text source target)
      (h : IsDeclaration "participant".toList text ∨ IsDeclaration "actor".toList text) : Names text

def Statement.names : Statement → Bool
  | .title _ => false
  | _ => true

theorem isSome_declared?_iff : (declared? text).isSome ↔
    IsDeclaration "participant".toList text ∨ IsDeclaration "actor".toList text := by
  rw [← isSome_declared_iff, ← isSome_declared_iff, declared?]
  cases hp : caseless? "participant".toList text with
  | none => simp
  | some rest =>
      have ha : caseless? "actor".toList text = none := caseless?_eq_none hp (by decide)
      rw [ha]
      exact (or_iff_left (by simp)).symm

theorem names_iff_of_isMessage (h : IsMessage text source target) :
    Names text ↔ unquote source ≠ [] ∧ unquote target ≠ [] := by
  constructor
  · intro hn
    cases hn with
    | @message source' target' h' hs ht =>
        obtain ⟨kind, he⟩ := exists_ends?_iff.2 h
        obtain ⟨kind', he'⟩ := exists_ends?_iff.2 h'
        cases he.symm.trans he'
        exact ⟨hs, ht⟩
    | declaration hm _ => exact absurd h (hm source target)
  · exact fun hn => .message h hn.1 hn.2

theorem names_iff_of_not_isMessage (h : ∀ source target, ¬ IsMessage text source target) :
    Names text ↔ IsDeclaration "participant".toList text ∨ IsDeclaration "actor".toList text := by
  constructor
  · intro hn
    cases hn with
    | message h' _ _ => exact absurd h' (h _ _)
    | declaration _ hd => exact hd
  · exact .declaration h

/-- A reader finds something named in the lines that fit. -/
theorem exists_statement?_iff (line : Line) :
    (∃ s, statement? line = some s ∧ s.names) ↔ Names line.text := by
  rw [statement?]
  dsimp only
  cases he : ends? (cut ':' line.text).1 with
  | some ends =>
      obtain ⟨source, kind, target⟩ := ends
      rw [names_iff_of_isMessage (exists_ends?_iff.1 ⟨kind, he⟩), ← isSome_nonempty?_iff,
        ← isSome_nonempty?_iff, Option.isSome_iff_exists, Option.isSome_iff_exists]
      simp only [Option.bind_eq_bind, Option.bind_eq_some_iff, Option.some_inj]
      constructor
      · rintro ⟨s, ⟨a, ha, b, hb, -⟩, -⟩
        exact ⟨⟨a, ha⟩, b, hb⟩
      · rintro ⟨⟨a, ha⟩, b, hb⟩
        exact ⟨_, ⟨a, ha, b, hb, rfl⟩, rfl⟩
  | none =>
      have hm (source target : List Char) : ¬ IsMessage line.text source target := by
        simp [← exists_ends?_iff, he]
      rw [names_iff_of_not_isMessage hm, ← isSome_declared?_iff]
      dsimp only
      cases declared? line.text with
      | some name => simp [Statement.names]
      | none =>
          simp only [Option.isSome_none, Bool.false_eq_true, iff_false]
          rintro ⟨s, hs, hn⟩
          obtain ⟨t, -, rfl⟩ := Option.map_eq_some_iff.1 hs
          cases hn

end Conversation

end Drafting.Source
