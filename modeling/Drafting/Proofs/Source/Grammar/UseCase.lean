import Drafting.Proofs.Source.Grammar.Conversation

namespace Drafting.Source

open Text

namespace UseCase

variable {s text name rest actor : List Char}

def IsCaseName (name : List Char) : Prop := name ≠ [] ∧ ∀ c ∈ name, c ≠ '(' ∧ c ≠ ')'

theorem parenthesised?_eq_some_iff : parenthesised? s = some (name, rest) ↔
    s = '(' :: (name ++ ')' :: rest) ∧ IsCaseName name := by
  constructor
  · intro h
    rw [parenthesised?.eq_def] at h
    split at h
    next s =>
      dsimp only at h
      split at h
      next c name' rest' hname hrest =>
        have hinside : ∀ d ∈ s.takeWhile fun c => c != '(' && c != ')', d ≠ '(' ∧ d ≠ ')' :=
          fun d hd => by simpa using List.mem_takeWhile_imp hd
        have hs := List.takeWhile_append_dropWhile (p := fun c => c != '(' && c != ')') (l := s)
        rw [hrest] at hs
        cases h
        refine ⟨by rw [hs], ?_, hinside⟩
        rw [hname]
        exact List.cons_ne_nil _ _
      next => cases h
    next => cases h
  · rintro ⟨rfl, hne, hn⟩
    have hstop : ∀ c ∈ (')' :: rest).head?, (c != '(' && c != ')') = false := by simp
    have hinside : ∀ c ∈ name, (c != '(' && c != ')') = true := by simpa using hn
    obtain ⟨c, name, rfl⟩ := List.exists_cons_of_ne_nil hne
    rw [parenthesised?, takeWhile_append_stop hinside hstop, dropWhile_append_stop hinside hstop]
    rfl

def IsRelationArrow (arrow : List Char) : Prop :=
  ∃ a, (a = '-' ∨ a = '.') ∧
    (arrow = [a, '>'] ∨ ∃ b, (b = '-' ∨ b = '.') ∧ arrow = [a, b, '>'])

theorem relationArrow?_eq_some_iff : relationArrow? s = some rest ↔
    ∃ arrow, IsRelationArrow arrow ∧ s = arrow ++ rest := by
  constructor
  · intro h
    rw [relationArrow?.eq_def] at h
    split at h
    next a s =>
      rw [Option.ite_none_right_eq_some, Option.some_inj] at h
      obtain ⟨ha, rfl⟩ := h
      exact ⟨_, ⟨a, ha, .inl rfl⟩, rfl⟩
    next a b s _ =>
      rw [Option.ite_none_right_eq_some, Option.some_inj] at h
      obtain ⟨⟨ha, hb⟩, rfl⟩ := h
      exact ⟨_, ⟨a, ha, .inr ⟨b, hb, rfl⟩⟩, rfl⟩
    next => cases h
  · rintro ⟨_, ⟨a, ha, rfl | ⟨b, hb, rfl⟩⟩, rfl⟩
    · simp [relationArrow?, ha]
    · rcases hb with rfl | rfl <;> simp [relationArrow?, ha]

/-- Two names in parentheses with an arrow between them. -/
inductive Relates : List Char → List Char → List Char → Prop
  | mk {source gap arrow gap' target tail : List Char} (hs : IsCaseName source) (hg : Blanks gap)
      (ha : IsRelationArrow arrow) (hg' : Blanks gap') (ht : IsCaseName target)
      (htail : IsAnnotation tail) :
      Relates ('(' :: (source ++ ')' :: (gap ++ (arrow ++ (gap' ++
        '(' :: (target ++ ')' :: tail)))))) source target

def IsRelation (text : List Char) : Prop := ∃ source target, Relates text source target

/-- An actor, an arrow and a name in parentheses. -/
inductive Links : List Char → List Char → List Char → Prop
  | mk {actor arrow gap name tail : List Char} (hne : actor ≠ [])
      (hp : ∀ c ∈ actor, c ≠ '(' ∧ c ≠ ')') (ha : IsArrow actor.tail arrow) (hg : Blanks gap)
      (hn : IsCaseName name) (htail : IsAnnotation tail) :
      Links (actor ++ (arrow ++ (gap ++ '(' :: (name ++ ')' :: tail)))) actor name

def IsLink (text actor : List Char) : Prop := ∃ name, Links text actor name

def IsCase (text : List Char) : Prop := ∃ name, text = '(' :: (name ++ [')']) ∧ IsCaseName name

theorem relates_of_relation? {statement : Statement} (h : relation? text = some statement) :
    ∃ source target kind label, Relates text source target ∧
      statement = .relation (String.ofList (trim source)) (String.ofList (trim target)) kind
        label := by
  simp only [relation?, Option.bind_eq_bind, Option.bind_eq_some_iff, Prod.exists,
    Option.some_inj] at h
  obtain ⟨source, rest, hsource, rest', harrow, target, tail, htarget, label, hlabel, rfl⟩ := h
  obtain ⟨rfl, hs⟩ := parenthesised?_eq_some_iff.1 hsource
  obtain ⟨gap, hg, he⟩ := exists_append_skipBlanks rest
  obtain ⟨arrow, ha, he'⟩ := relationArrow?_eq_some_iff.1 harrow
  obtain ⟨gap', hg', hr⟩ := exists_append_skipBlanks rest'
  obtain ⟨he'', ht⟩ := parenthesised?_eq_some_iff.1 htarget
  refine ⟨source, target, _, _, ?_, rfl⟩
  rw [he, he', hr, he'']
  exact ⟨hs, hg, ha, hg', ht, isSome_annotation?_iff.1 (hlabel ▸ rfl)⟩

theorem Relates.relation? {source target : List Char} (h : Relates text source target) :
    ∃ kind label, relation? text =
      some (.relation (String.ofList (trim source)) (String.ofList (trim target)) kind
        label) := by
  obtain ⟨hs, hg, ha, hg', ht, htail⟩ := h
  rename_i gap arrow gap' tail
  obtain ⟨label, hlabel⟩ := Option.isSome_iff_exists.1 (isSome_annotation?_iff.2 htail)
  have harrow : ∀ c ∈ (arrow ++ (gap' ++ '(' :: (target ++ ')' :: tail))).head?,
      isBlank c = false := by
    obtain ⟨a, rfl | rfl, rfl | ⟨b, -, rfl⟩⟩ := ha <;> simp <;> decide
  have hopen : ∀ c ∈ ('(' :: (target ++ ')' :: tail)).head?, isBlank c = false := by
    simp
    decide
  simp only [UseCase.relation?, Option.bind_eq_bind, Option.bind_eq_some_iff, Prod.exists]
  exact ⟨_, _, source, _, parenthesised?_eq_some_iff.2 ⟨rfl, hs⟩, _,
    relationArrow?_eq_some_iff.2 ⟨arrow, ha, by
      rw [skipBlanks_append hg, skipBlanks_of_head harrow]⟩, target, _,
    parenthesised?_eq_some_iff.2 ⟨by rw [skipBlanks_append hg', skipBlanks_of_head hopen], ht⟩,
    label, hlabel, rfl⟩

theorem isSome_relation?_iff : (relation? text).isSome ↔ IsRelation text := by
  constructor
  · intro h
    obtain ⟨s, hs⟩ := Option.isSome_iff_exists.1 h
    obtain ⟨source, target, -, -, hr, -⟩ := relates_of_relation? hs
    exact ⟨source, target, hr⟩
  · rintro ⟨source, target, h⟩
    obtain ⟨kind, label, hr⟩ := h.relation?
    rw [hr]
    rfl

theorem beforeArrow?_eq_some_iff : beforeArrow? s = some actor ↔
    ∃ arrow gap, s = actor ++ (arrow ++ gap) ∧ actor ≠ [] ∧ IsArrow actor.tail arrow ∧
      Blanks gap := by
  constructor
  · intro h
    cases s with
    | nil => cases h
    | cons c s =>
        obtain ⟨gap, hg, he⟩ := exists_append_skipBlanks s.reverse
        have hs : s = (skipBlanks s.reverse).reverse ++ gap.reverse := by
          rw [← List.reverse_append, ← he, List.reverse_reverse]
        have hg' : Blanks gap.reverse := fun d hd => hg d (List.mem_reverse.1 hd)
        rw [beforeArrow?, ← skipBlanks] at h
        split at h
        next r hr =>
          cases h
          refine ⟨_, _, ?_, List.cons_ne_nil _ _, .inl rfl, hg'⟩
          rw [hs, hr]
          simp
        next r hn hr =>
          cases h
          refine ⟨_, _, ?_, List.cons_ne_nil _ _, .inr ⟨rfl, ?_⟩, hg'⟩
          · rw [hs, hr]
            simp
          · rw [List.tail_cons, List.getLast?_reverse]
            intro hhead
            obtain ⟨r', rfl⟩ := List.head?_eq_some_iff.1 hhead
            exact hn r' rfl
        next => cases h
  · rintro ⟨arrow, gap, rfl, hne, ha, hg⟩
    obtain ⟨c, t, rfl⟩ := List.exists_cons_of_ne_nil hne
    have hg' : ∀ d ∈ gap.reverse, isBlank d := fun d hd => hg d (List.mem_reverse.1 hd)
    have hskip (a : List Char) (h : ∀ d ∈ a.head?, isBlank d = false) :
        (gap.reverse ++ a).dropWhile isBlank = a := dropWhile_append_stop hg' h
    rw [List.cons_append, beforeArrow?, List.reverse_append, List.reverse_append,
      List.append_assoc]
    rcases ha with rfl | ⟨rfl, hlast⟩
    · rw [hskip _ (by simp; decide)]
      simp
    · rw [hskip _ (by simp; decide)]
      rw [List.tail_cons, ← List.head?_reverse] at hlast
      obtain ⟨r, rfl⟩ : ∃ r : List Char, t = r.reverse := ⟨t.reverse, t.reverse_reverse.symm⟩
      rw [List.reverse_reverse] at hlast ⊢
      cases r with
      | nil => rfl
      | cons d r =>
          have hd : d ≠ '-' := fun hd => hlast (hd ▸ rfl)
          simp [hd]

theorem exists_linkParts?_eq_iff :
    (∃ label, linkParts? text = some (actor, name, label)) ↔ Links text actor name := by
  have hinside {s : List Char} (h : ∀ c ∈ s, c ≠ '(' ∧ c ≠ ')') :
      ∀ c ∈ s, (c != '(' && c != ')') = true := by simpa using h
  constructor
  · rintro ⟨label, h⟩
    simp only [linkParts?, Option.bind_eq_bind, Option.bind_eq_some_iff, Prod.exists,
      Option.some_inj, Prod.mk.injEq] at h
    obtain ⟨_, rest, hname, _, hbefore, _, hlabel, rfl, rfl, rfl⟩ := h
    obtain ⟨he, hn⟩ := parenthesised?_eq_some_iff.1 hname
    obtain ⟨arrow, gap, he', hne, ha, hg⟩ := beforeArrow?_eq_some_iff.1 hbefore
    have htext := List.takeWhile_append_dropWhile (p := fun c => c != '(' && c != ')') (l := text)
    rw [he, he', List.append_assoc, List.append_assoc] at htext
    rw [← htext]
    refine ⟨hne, fun c hc => ?_, ha, hg, hn, isSome_annotation?_iff.1 (hlabel ▸ rfl)⟩
    have hc' := List.mem_append_left (arrow ++ gap) hc
    rw [← he'] at hc'
    simpa using List.mem_takeWhile_imp hc'
  · rintro ⟨hne, hp, ha, hg, hn, htail⟩
    rename_i arrow gap tail
    obtain ⟨label, hlabel⟩ := Option.isSome_iff_exists.1 (isSome_annotation?_iff.2 htail)
    have hbefore : ∀ c ∈ actor ++ (arrow ++ gap), c ≠ '(' ∧ c ≠ ')' := by
      intro c hc
      rcases List.mem_append.1 hc with hc | hc
      · exact hp c hc
      rcases List.mem_append.1 hc with hc | hc
      · rcases ha.mem hc with rfl | rfl <;> decide
      · constructor <;> rintro rfl <;> exact absurd (hg _ hc) (by decide)
    have hstop : ∀ c ∈ ('(' :: (name ++ ')' :: tail)).head?, (c != '(' && c != ')') = false := by
      simp
    refine ⟨label, ?_⟩
    rw [← List.append_assoc arrow, ← List.append_assoc actor, linkParts?,
      takeWhile_append_stop (hinside hbefore) hstop, dropWhile_append_stop (hinside hbefore) hstop,
      parenthesised?_eq_some_iff.2 ⟨rfl, hn⟩,
      beforeArrow?_eq_some_iff.2 ⟨arrow, gap, rfl, hne, ha, hg⟩]
    simp [hlabel]

theorem exists_linkParts?_iff :
    (∃ name label, linkParts? text = some (actor, name, label)) ↔ IsLink text actor := by
  simp only [exists_linkParts?_eq_iff, IsLink]

inductive Names : List Char → Prop
  | relation {text : List Char} (h : IsRelation text) : Names text
  | link {text actor : List Char} (h : IsLink text actor) (hn : unquote actor ≠ []) : Names text
  | actor {text : List Char} (h : IsDeclaration "actor".toList text) : Names text
  | useCase {text : List Char} (h : IsCase text) : Names text

def Statement.names : Statement → Bool
  | .title _ => false
  | _ => true

theorem IsLink.exists_head (h : IsLink text actor) :
    ∃ c s, actor = c :: s ∧ text.head? = some c ∧ c ≠ '(' := by
  obtain ⟨_, hne, hp, -, -, -, -⟩ := h
  obtain ⟨c, s, rfl⟩ := List.exists_cons_of_ne_nil hne
  exact ⟨c, s, rfl, rfl, (hp c List.mem_cons_self).1⟩

theorem IsLink.mem (h : IsLink text actor) : '(' ∈ text := by
  obtain ⟨_, -, -, -, -, -, -⟩ := h
  simp

theorem IsRelation.head? (h : IsRelation text) : text.head? = some '(' := by
  obtain ⟨_, _, -, -, -, -, -, -⟩ := h
  rfl

theorem names_of_relation? {statement : Statement} (h : relation? text = some statement) :
    statement.names := by
  simp only [relation?, Option.bind_eq_bind, Option.bind_eq_some_iff, Prod.exists,
    Option.some_inj] at h
  obtain ⟨_, _, _, _, _, _, _, _, _, _, rfl⟩ := h
  rfl

theorem isSome_declaredActor?_iff :
    (declaredActor? text).isSome ↔ IsDeclaration "actor".toList text := by
  have he : declaredActor? text =
      ((caseless? "actor".toList text).bind fun t => (gap? t).bind fun t =>
        nonempty? (unquote t)).map fun name => .actor (String.ofList name) := by
    simp only [declaredActor?, Option.bind_eq_bind, Option.map_eq_bind, Option.bind_assoc]
    rfl
  rw [he, Option.isSome_map, isSome_declared_iff]

theorem isSome_declaredCase?_iff : (declaredCase? text).isSome ↔ IsCase text := by
  rw [declaredCase?]
  constructor
  · intro h
    split at h
    next name hn => exact ⟨name, parenthesised?_eq_some_iff.1 hn⟩
    next => cases h
  · rintro ⟨name, hn⟩
    rw [parenthesised?_eq_some_iff.2 hn]
    rfl

theorem names_of_declaredActor? {statement : Statement}
    (h : declaredActor? text = some statement) : statement.names := by
  simp only [declaredActor?, Option.bind_eq_bind, Option.bind_eq_some_iff, Option.some_inj] at h
  obtain ⟨_, _, _, _, _, _, rfl⟩ := h
  rfl

theorem names_of_declaredCase? {statement : Statement}
    (h : declaredCase? text = some statement) : statement.names := by
  rw [declaredCase?] at h
  split at h
  · cases h
    rfl
  · cases h

theorem names_iff_of_isLink (hr : ¬ IsRelation text) (h : IsLink text actor) :
    Names text ↔ unquote actor ≠ [] := by
  constructor
  · obtain ⟨c, s, rfl, hhead, hc⟩ := h.exists_head
    intro hn
    cases hn with
    | relation h' => exact absurd h' hr
    | @link actor' h' hn =>
        obtain ⟨name, label, he⟩ := exists_linkParts?_iff.2 h
        obtain ⟨name', label', he'⟩ := exists_linkParts?_iff.2 h'
        cases he.symm.trans he'
        exact hn
    | actor h' =>
        obtain ⟨d, t, rfl, hd⟩ := h'.exists_head
        rw [List.head?_cons, Option.some_inj] at hhead
        subst hhead
        have hb := not_isBlank_of_toLower hd (by decide)
        refine unquote_ne_nil_of_mem List.mem_cons_self hb ?_
        rintro rfl
        exact absurd hd (by decide)
    | useCase h' =>
        obtain ⟨name, rfl, -⟩ := h'
        rw [List.head?_cons, Option.some_inj] at hhead
        exact absurd hhead.symm hc
  · exact fun hn => .link h hn

theorem names_iff_of_not_isLink (hr : ¬ IsRelation text) (h : ∀ actor, ¬ IsLink text actor) :
    Names text ↔ IsDeclaration "actor".toList text ∨ IsCase text := by
  constructor
  · intro hn
    cases hn with
    | relation h' => exact absurd h' hr
    | link h' _ => exact absurd h' (h _)
    | actor h' => exact .inl h'
    | useCase h' => exact .inr h'
  · rintro (h' | h')
    · exact .actor h'
    · exact .useCase h'

/-- A reader finds something named in the lines that fit. -/
theorem exists_statement?_iff (line : Line) :
    (∃ s, statement? line = some s ∧ s.names) ↔ Names line.text := by
  rw [statement?]
  cases hr : relation? line.text with
  | some s =>
      have h : IsRelation line.text := isSome_relation?_iff.1 (by simp [hr])
      simp [names_of_relation? hr, Names.relation h]
  | none =>
      have hnr : ¬ IsRelation line.text := by simp [← isSome_relation?_iff, hr]
      cases hl : linkParts? line.text with
      | some parts =>
          obtain ⟨actor, name, label⟩ := parts
          rw [names_iff_of_isLink hnr (exists_linkParts?_iff.1 ⟨name, label, hl⟩),
            ← isSome_nonempty?_iff]
          dsimp only
          cases nonempty? (unquote actor) <;> simp [Statement.names]
      | none =>
          have hnl (actor : List Char) : ¬ IsLink line.text actor := by
            simp [← exists_linkParts?_iff, hl]
          rw [names_iff_of_not_isLink hnr hnl, ← isSome_declaredActor?_iff,
            ← isSome_declaredCase?_iff]
          dsimp only
          cases ha : declaredActor? line.text with
          | some s => simp [names_of_declaredActor? ha]
          | none =>
              cases hc : declaredCase? line.text with
              | some s => simp [names_of_declaredCase? hc]
              | none => cases title? line.text <;> simp [Statement.names]

end UseCase

end Drafting.Source
