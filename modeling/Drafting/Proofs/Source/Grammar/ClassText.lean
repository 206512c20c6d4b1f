import Drafting.Proofs.Text.Scan
import Drafting.Proofs.Source.Reading

namespace Drafting.Source.ClassText

open Text

variable {s text name rest parent : List Char}

theorem not_isBlank_of_isName {inner : Char → Bool} (h : IsName inner name) :
    ∀ c ∈ (name ++ rest).head?, isBlank c = false := by
  obtain ⟨c, t, rfl, hc, -⟩ := h
  have hall : blanks.all fun c => !(isAsciiLetter c || c == '_') := by decide +kernel
  have hb : ¬ isBlank c := fun hb => by
    simpa [hc] using List.all_eq_true.1 hall c (mem_blanks hb)
  simpa using hb

theorem not_isNameChar_of_isBlank {c : Char} (h : isBlank c) : isNameChar c = false := by
  have hall : blanks.all fun c => !isNameChar c := by decide +kernel
  simpa using List.all_eq_true.1 hall c (mem_blanks h)

theorem not_isBlank_of_mem {c : Char} (h : IsName isNameChar name) (hc : c ∈ name) :
    isBlank c = false := by
  have hhead : ∀ c ∈ (name ++ []).head?, isBlank c = false := not_isBlank_of_isName h
  obtain ⟨d, s, rfl, -, hs⟩ := h
  rcases List.mem_cons.1 hc with rfl | hc
  · exact hhead c rfl
  · cases hb : isBlank c with
    | false => rfl
    | true => simpa [not_isNameChar_of_isBlank hb] using hs c hc

def IsExtension (parent s : List Char) : Prop :=
  ∃ gap gap', s = gap ++ ("extends".toList ++ (gap' ++ parent)) ∧ gap ≠ [] ∧ Blanks gap ∧
    gap' ≠ [] ∧ Blanks gap' ∧ IsName isNameChar parent

theorem parent?_eq_some_iff : parent? s = some (parent, rest) ↔
    (∃ extension, s = extension ++ rest ∧ IsExtension parent extension) ∧
      ∀ c ∈ rest.head?, isNameChar c = false := by
  simp only [parent?, Option.bind_eq_bind, Option.bind_eq_some_iff]
  constructor
  · rintro ⟨s', hs, t, ht, t', ht', hname⟩
    obtain ⟨⟨gap, hne, hg, rfl⟩, -⟩ := gap?_eq_some_iff.1 hs
    obtain rfl := List.isPrefixOf?_eq_some_iff_append_eq.1 ht
    obtain ⟨⟨gap', hne', hg', rfl⟩, -⟩ := gap?_eq_some_iff.1 ht'
    obtain ⟨rfl, hn, hr⟩ := name?_eq_some_iff.1 hname
    exact ⟨⟨_, by simp only [List.append_assoc], gap, gap', rfl, hne, hg, hne', hg', hn⟩, hr⟩
  · rintro ⟨⟨_, rfl, gap, gap', rfl, hne, hg, hne', hg', hn⟩, hr⟩
    refine ⟨_, gap?_eq_some_iff.2 ⟨⟨gap, hne, hg, ?_⟩, ?_⟩, _,
      List.isPrefixOf?_eq_some_iff_append_eq.2 rfl, _,
      gap?_eq_some_iff.2 ⟨⟨gap', hne', hg', rfl⟩, not_isBlank_of_isName hn⟩,
      name?_eq_some_iff.2 ⟨rfl, hn, hr⟩⟩
    · simp only [List.append_assoc]
    · simp
      decide

/-- What may stand behind the name of a class and its parent: nothing, or the beginning of a body
whose members are well formed. -/
def IsBody (s : List Char) : Prop :=
  s = [] ∨ ∃ body, s = '{' :: body ∧ ∀ t ∈ memberTexts (cut '}' body).1, (member? t).isSome

inductive Declares : List Char → Prop
  | mk {gap name extension gap' body : List Char} (hne : gap ≠ []) (hg : Blanks gap)
      (hn : IsName isNameChar name)
      (he : extension = [] ∨ ∃ parent, IsExtension parent extension) (hg' : Blanks gap')
      (hb : IsBody body) :
      Declares ("class".toList ++ (gap ++ (name ++ (extension ++ (gap' ++ body)))))

def Opens (s : List Char) : Prop := ∀ c ∈ s.head?, c = '{'

/-- White space does not go on with a name. -/
theorem not_isNameChar_of_blanks {gap : List Char} (hg : Blanks gap)
    (hs : ∀ c ∈ s.head?, isNameChar c = false) : ∀ c ∈ (gap ++ s).head?, isNameChar c = false := by
  cases gap with
  | nil => exact hs
  | cons b gap => simpa using not_isNameChar_of_isBlank (hg b List.mem_cons_self)

/-- Neither white space nor a brace goes on with a name. -/
theorem Opens.not_isNameChar {gap body : List Char} (h : Opens body) (hg : Blanks gap) :
    ∀ c ∈ (gap ++ body).head?, isNameChar c = false :=
  not_isNameChar_of_blanks hg fun c hc => h c hc ▸ by decide +kernel

theorem Opens.skipBlanks {gap body : List Char} (h : Opens body) (hg : Blanks gap) :
    skipBlanks (gap ++ body) = body := by
  rw [skipBlanks_append hg]
  exact skipBlanks_of_head fun c hc => h c hc ▸ by decide

theorem Opens.parent?_eq_none {gap body : List Char} (h : Opens body) (hg : Blanks gap) :
    parent? (gap ++ body) = none := by
  refine Option.eq_none_iff_forall_ne_some.2 fun ⟨parent, rest⟩ hp => ?_
  obtain ⟨⟨_, hs, g, g', rfl, -, hb, -⟩, -⟩ := parent?_eq_some_iff.1 hp
  have hskip := h.skipBlanks hg
  rw [hs, List.append_assoc, List.append_assoc, skipBlanks_append hb,
    skipBlanks_of_head (by simp; decide)] at hskip
  exact absurd (h 'e' (by rw [← hskip]; rfl)) (by decide)

def Declaration.IsSound (d : Declaration) : Prop :=
  ∀ body ∈ d.body, ∀ t ∈ memberTexts (cut '}' body).1, (member? t).isSome

/-- Behind the keyword, white space and a name, only what follows the name is in question. -/
theorem declaration?_of_isName {gap : List Char} (hne : gap ≠ []) (hg : Blanks gap)
    (hn : IsName isNameChar name) (hstop : ∀ c ∈ rest.head?, isNameChar c = false) :
    declaration? ("class".toList ++ (gap ++ (name ++ rest))) =
      (match (match parent? rest with
        | some (parent, rest) => (some (String.ofList parent), rest)
        | none => (none, rest)) with
      | (parent, rest) => match skipBlanks rest with
        | [] => some ⟨String.ofList name, parent, none⟩
        | '{' :: body => some ⟨String.ofList name, parent, some body⟩
        | _ => none) := by
  have hclass : "class".toList.isPrefixOf? ("class".toList ++ (gap ++ (name ++ rest))) =
      some (gap ++ (name ++ rest)) := List.isPrefixOf?_eq_some_iff_append_eq.2 rfl
  have hgap : gap? (gap ++ (name ++ rest)) = some (name ++ rest) :=
    gap?_eq_some_iff.2 ⟨⟨gap, hne, hg, rfl⟩, not_isBlank_of_isName hn⟩
  have hname : name? isNameChar (name ++ rest) = some (name, rest) :=
    name?_eq_some_iff.2 ⟨rfl, hn, hstop⟩
  rw [declaration?, hclass, Option.bind_eq_bind, Option.bind_some, hgap, Option.bind_eq_bind,
    Option.bind_some, hname]
  rfl

def Extends : Option (List Char) → List Char → Prop
  | none, extension => extension = []
  | some parent, extension => IsExtension parent extension

def opening : Option (List Char) → List Char
  | none => []
  | some body => '{' :: body

theorem opens_opening (body : Option (List Char)) : Opens (opening body) := by
  cases body <;> simp [Opens, opening]

inductive Heads : List Char → Declaration → Prop
  | mk (parent body : Option (List Char)) {gap name extension gap' : List Char} (hne : gap ≠ [])
      (hg : Blanks gap) (hn : IsName isNameChar name) (he : Extends parent extension)
      (hg' : Blanks gap') :
      Heads ("class".toList ++ (gap ++ (name ++ (extension ++ (gap' ++ opening body)))))
        ⟨String.ofList name, parent.map String.ofList, body⟩

theorem exists_opening {name : String} {parent : Option String} {d : Declaration}
    (h : (match skipBlanks s with
      | [] => some ⟨name, parent, none⟩
      | '{' :: body => some ⟨name, parent, some body⟩
      | _ => none) = some d) :
    ∃ gap body, s = gap ++ opening body ∧ Blanks gap ∧ d = ⟨name, parent, body⟩ := by
  obtain ⟨gap, hg, he⟩ := exists_append_skipBlanks s
  split at h
  next hs =>
    cases h
    exact ⟨gap, none, he.trans (congrArg (gap ++ ·) hs), hg, rfl⟩
  next body hs =>
    cases h
    exact ⟨gap, some body, he.trans (congrArg (gap ++ ·) hs), hg, rfl⟩
  next => cases h

theorem heads_of_declaration? {d : Declaration} (h : declaration? text = some d) :
    Heads text d := by
  simp only [declaration?, Option.bind_eq_bind, Option.bind_eq_some_iff, Prod.exists] at h
  obtain ⟨t, ht, s, hs, name, rest, hname, h⟩ := h
  obtain rfl := List.isPrefixOf?_eq_some_iff_append_eq.1 ht
  obtain ⟨⟨gap, hne, hg, rfl⟩, -⟩ := gap?_eq_some_iff.1 hs
  obtain ⟨rfl, hn, -⟩ := name?_eq_some_iff.1 hname
  cases hp : parent? rest with
  | none =>
      rw [hp] at h
      obtain ⟨gap', body, rfl, hg', rfl⟩ := exists_opening h
      exact .mk none body hne hg hn rfl hg'
  | some p =>
      obtain ⟨parent, rest'⟩ := p
      obtain ⟨⟨extension, rfl, he⟩, -⟩ := parent?_eq_some_iff.1 hp
      rw [hp] at h
      obtain ⟨gap', body, rfl, hg', rfl⟩ := exists_opening h
      exact .mk (some parent) body hne hg hn he hg'

theorem declaration?_eq_some_iff {d : Declaration} : declaration? text = some d ↔ Heads text d := by
  refine ⟨heads_of_declaration?, ?_⟩
  rintro ⟨parent, body, hne, hg, hn, he, hg'⟩
  rename_i gap name extension gap'
  have hopens := opens_opening body
  have hend := hopens.not_isNameChar hg'
  have hbody (parent : Option String) : (match skipBlanks (gap' ++ opening body) with
      | [] => some (⟨String.ofList name, parent, none⟩ : Declaration)
      | '{' :: body => some ⟨String.ofList name, parent, some body⟩
      | _ => none) = some ⟨String.ofList name, parent, body⟩ := by
    rw [hopens.skipBlanks hg']
    cases body <;> rfl
  cases parent with
  | none =>
      rw [show extension = [] from he, List.nil_append, declaration?_of_isName hne hg hn hend,
        hopens.parent?_eq_none hg']
      exact hbody none
  | some parent =>
      have hstop : ∀ c ∈ (extension ++ (gap' ++ opening body)).head?, isNameChar c = false := by
        obtain ⟨g, g', rfl, hg, hb, -⟩ := he
        obtain ⟨c, g, rfl⟩ := List.exists_cons_of_ne_nil hg
        simpa using not_isNameChar_of_isBlank (hb c List.mem_cons_self)
      rw [declaration?_of_isName hne hg hn hstop,
        parent?_eq_some_iff.2 ⟨⟨extension, rfl, he⟩, hend⟩]
      exact hbody (some (String.ofList parent))

theorem exists_declaration?_iff : (∃ d, declaration? text = some d ∧ d.IsSound) ↔
    Declares text := by
  simp only [declaration?_eq_some_iff]
  constructor
  · rintro ⟨_, ⟨parent, body, hne, hg, hn, he, hg'⟩, hd⟩
    refine .mk hne hg hn ?_ hg' ?_
    · cases parent with
      | none => exact .inl he
      | some parent => exact .inr ⟨parent, he⟩
    · cases body with
      | none => exact .inl rfl
      | some body => exact .inr ⟨body, rfl, hd body rfl⟩
  · rintro ⟨hne, hg, hn, he, hg', hb⟩
    have hextends : ∃ parent, Extends parent _ := he.elim (fun h => ⟨none, h⟩) fun ⟨p, h⟩ =>
      ⟨some p, h⟩
    obtain ⟨parent, he⟩ := hextends
    rcases hb with rfl | ⟨body, rfl, hm⟩
    · exact ⟨_, .mk parent none hne hg hn he hg', fun _ hb => by cases hb⟩
    · exact ⟨_, .mk parent (some body) hne hg hn he hg', fun _ hb => Option.mem_some_iff.1 hb ▸ hm⟩

def arrows : List (List Char × EdgeKind) :=
  [("-->".toList, .association), ("--|>".toList, .inheritance)]

theorem relationArrow?_eq_some_iff {kind : EdgeKind} : relationArrow? s = some (kind, rest) ↔
    ∃ arrow, (arrow, kind) ∈ arrows ∧ s = arrow ++ rest := by
  constructor
  · intro h
    rw [relationArrow?.eq_def] at h
    split at h
    next =>
      cases h
      exact ⟨_, List.mem_cons_self, rfl⟩
    next =>
      cases h
      exact ⟨_, List.mem_cons_of_mem _ List.mem_cons_self, rfl⟩
    next => cases h
  · rintro ⟨arrow, ha, rfl⟩
    simp only [arrows, List.mem_cons, Prod.mk.injEq, List.not_mem_nil, or_false] at ha
    rcases ha with ⟨rfl, rfl⟩ | ⟨rfl, rfl⟩ <;> rfl

theorem exists_dash {arrow : List Char} {kind : EdgeKind} (h : (arrow, kind) ∈ arrows) :
    ∃ s, arrow = '-' :: s := by
  simp only [arrows, List.mem_cons, Prod.mk.injEq, List.not_mem_nil, or_false] at h
  rcases h with ⟨rfl, -⟩ | ⟨rfl, -⟩ <;> exact ⟨_, rfl⟩

theorem head?_eq_dash_of_relationArrow? (h : (relationArrow? s).isSome) : s.head? = some '-' := by
  obtain ⟨⟨kind, rest⟩, hr⟩ := Option.isSome_iff_exists.1 h
  obtain ⟨arrow, ha, rfl⟩ := relationArrow?_eq_some_iff.1 hr
  obtain ⟨s, rfl⟩ := exists_dash ha
  rfl

/-- Two names with an arrow between them, and perhaps a label behind a colon. -/
inductive Relates : List Char → Relation → Prop
  | mk {source gap arrow gap' target tail : List Char} {kind : EdgeKind}
      {label : Option (List Char)} (hs : IsName isNameChar source) (hg : Blanks gap)
      (ha : (arrow, kind) ∈ arrows) (hg' : Blanks gap') (ht : IsName isNameChar target)
      (hl : Annotates tail label) :
      Relates (source ++ (gap ++ (arrow ++ (gap' ++ (target ++ tail)))))
        ⟨String.ofList source, String.ofList target, kind, label.map String.ofList⟩

/-- Neither white space nor a colon goes on with a name. -/
theorem not_isNameChar_of_annotates {tail : List Char} {label : Option (List Char)}
    (h : Annotates tail label) : ∀ c ∈ tail.head?, isNameChar c = false := by
  cases label with
  | none => simpa using not_isNameChar_of_blanks (s := []) h
  | some label =>
      obtain ⟨gap, note, rfl, hg, -⟩ := h
      refine not_isNameChar_of_blanks hg ?_
      simp
      decide +kernel

theorem relation?_eq_some_iff {r : Relation} : relation? text = some r ↔ Relates text r := by
  constructor
  · intro h
    simp only [relation?, Option.bind_eq_bind, Option.bind_eq_some_iff, Prod.exists] at h
    obtain ⟨source, t, hsource, kind, t', harrow, target, tail, htarget, label, hlabel, hr⟩ := h
    obtain ⟨rfl, hs, -⟩ := name?_eq_some_iff.1 hsource
    obtain ⟨gap, hg, he⟩ := exists_append_skipBlanks t
    obtain ⟨arrow, ha, he'⟩ := relationArrow?_eq_some_iff.1 harrow
    obtain ⟨gap', hg', he''⟩ := exists_append_skipBlanks t'
    obtain ⟨hrest, ht, -⟩ := name?_eq_some_iff.1 htarget
    rw [he, he', he'', hrest, ← Option.some.inj hr]
    exact ⟨hs, hg, ha, hg', ht, annotation?_eq_some_iff.1 hlabel⟩
  · rintro ⟨hs, hg, ha, hg', ht, hl⟩
    rename_i source gap arrow gap' target tail kind label
    obtain ⟨s, rfl⟩ := exists_dash ha
    have hdash : ∀ c ∈ (gap ++ ('-' :: s ++ (gap' ++ (target ++ tail)))).head?,
        isNameChar c = false := not_isNameChar_of_blanks hg (by simp; decide +kernel)
    have hskip : skipBlanks (gap ++ ('-' :: s ++ (gap' ++ (target ++ tail)))) =
        '-' :: s ++ (gap' ++ (target ++ tail)) := by
      rw [skipBlanks_append hg]
      exact skipBlanks_of_head (by simp; decide)
    have hskip' : skipBlanks (gap' ++ (target ++ tail)) = target ++ tail := by
      rw [skipBlanks_append hg', skipBlanks_of_head (not_isBlank_of_isName ht)]
    simp only [relation?, Option.bind_eq_bind, Option.bind_eq_some_iff, Prod.exists]
    exact ⟨source, _, name?_eq_some_iff.2 ⟨rfl, hs, hdash⟩, kind, _,
      relationArrow?_eq_some_iff.2 ⟨_, ha, hskip⟩, target, tail,
      name?_eq_some_iff.2 ⟨hskip', ht, not_isNameChar_of_annotates hl⟩, label,
      annotation?_eq_some_iff.2 hl, rfl⟩

/-- Behind the keyword of a declaration stands a name, behind the source of a relation an arrow. -/
theorem declaration?_eq_none_of_relation? (h : (relation? text).isSome) :
    declaration? text = none := by
  refine Option.eq_none_iff_forall_ne_some.2 fun d hd => ?_
  simp only [declaration?, Option.bind_eq_bind, Option.bind_eq_some_iff, Prod.exists] at hd
  obtain ⟨t, ht, s, hs, name, rest, hname, -⟩ := hd
  obtain rfl := List.isPrefixOf?_eq_some_iff_append_eq.1 ht
  obtain ⟨⟨gap, hne, hg, rfl⟩, hhead⟩ := gap?_eq_some_iff.1 hs
  obtain ⟨rfl, ⟨c, name, rfl, hc, -⟩, -⟩ := name?_eq_some_iff.1 hname
  have hsource : name? isNameChar ("class".toList ++ (gap ++ (c :: name ++ rest))) =
      some ("class".toList, gap ++ (c :: name ++ rest)) := by
    have hinner : "lass".toList.all isNameChar := by decide +kernel
    refine name?_eq_some_iff.2
      ⟨rfl, ⟨'c', "lass".toList, rfl, by decide, List.all_eq_true.1 hinner⟩, ?_⟩
    obtain ⟨b, gap, rfl⟩ := List.exists_cons_of_ne_nil hne
    simpa using not_isNameChar_of_isBlank (hg b List.mem_cons_self)
  obtain ⟨r, hr⟩ := Option.isSome_iff_exists.1 h
  simp only [relation?, Option.bind_eq_bind, hsource, Option.bind_some,
    Option.bind_eq_some_iff] at hr
  obtain ⟨_, harrow, -⟩ := hr
  have hdash := head?_eq_dash_of_relationArrow? (Option.isSome_iff_exists.2 ⟨_, harrow⟩)
  rw [skipBlanks_append hg, skipBlanks_of_head hhead, List.cons_append, List.head?_cons,
    Option.some_inj] at hdash
  subst hdash
  exact absurd hc (by decide)

end Drafting.Source.ClassText
