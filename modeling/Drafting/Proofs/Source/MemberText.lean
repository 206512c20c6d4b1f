import Drafting.Proofs.Source.ClassBody

namespace Drafting.Source.ClassText

open Text

variable {text name rest s t : List Char} {stops : List Char} {owner : String} {mode : Mode}

def ends : List Char := [';', '}', '\n']

def Clear (stops s : List Char) : Prop := ∀ c ∈ stops, c ∉ s

theorem Clear.sublist (h : Clear stops t) (hs : s.Sublist t) : Clear stops s :=
  fun c hc hm => h c hc (hs.subset hm)

theorem Clear.append (hs : Clear stops s) (ht : Clear stops t) : Clear stops (s ++ t) := by
  intro c hc
  rw [List.mem_append, not_or]
  exact ⟨hs c hc, ht c hc⟩

/-- Something trimmed, in which none of the given characters occurs. -/
structure IsPhrase (stops s : List Char) : Prop where
  ne_nil : s ≠ []
  trimmed : IsTrimmed s
  clear : Clear stops s

def Member.IsReadable : Member → Prop
  | .attribute a => IsName isWord a.name.toList ∧ IsPhrase ends a.type.toList
  | .method m => IsName isWord m.name.toList ∧ IsPhrase ends m.returns.toList ∧
      ∀ p ∈ m.parameters, IsPhrase (',' :: ')' :: ends) p.toList

theorem isPhrase_of_trim (hs : Clear stops s) (hne : trim s ≠ []) : IsPhrase stops (trim s) :=
  ⟨hne, isTrimmed_trim s, hs.sublist (trim_sublist s)⟩

theorem isPhrase_of_mem_items {c : Char} (hs : Clear stops s) (h : t ∈ items c s) :
    IsPhrase (c :: stops) t := by
  obtain ⟨h, hne⟩ := List.mem_filter.1 h
  obtain ⟨p, hp, rfl⟩ := List.mem_map.1 h
  have hclear : Clear (c :: stops) p :=
    List.forall_mem_cons.2 ⟨not_mem_of_mem_pieces hp, hs.sublist (sublist_of_mem_pieces hp)⟩
  exact isPhrase_of_trim hclear (by simpa using hne)

theorem isPhrase_of_annotation? (hs : Clear stops s) (h : annotation? s = some (some t)) :
    IsPhrase stops t := by
  rw [annotation?] at h
  split at h
  next => cases h
  next rest hrest =>
    have hsub : rest.Sublist s :=
      (List.sublist_cons_self ':' rest).trans (hrest ▸ skipBlanks_sublist s)
    rw [nonempty?, Option.map_eq_some_iff] at h
    obtain ⟨u, hu, hut⟩ := h
    obtain rfl := Option.some.inj hut
    rw [Option.ite_none_left_eq_some, List.isEmpty_iff] at hu
    rw [← Option.some.inj hu.2]
    exact isPhrase_of_trim (hs.sublist hsub) hu.1
  next => cases h

theorem snd_visibility_sublist (s : List Char) : (visibility s).2.Sublist s := by
  cases s with
  | nil => exact .slnil
  | cons c s =>
      rw [visibility]
      split
      · exact (skipBlanks_sublist s).cons c
      · exact skipBlanks_sublist (c :: s)

/-- What stands in front of the name of a member is its mark and white space. -/
theorem isName_of_name? (h : name? isWord (visibility text).2 = some (name, rest)) :
    IsName isWord name ∧ rest.Sublist text := by
  obtain ⟨he, hn, -⟩ := name?_eq_some_iff.1 h
  exact ⟨hn, (List.sublist_append_right name rest).trans (he ▸ snd_visibility_sublist text)⟩

theorem isReadable_of_attribute? {a : Attribute} (ht : Clear ends text)
    (h : attribute? text = some a) : (Member.attribute a).IsReadable := by
  simp only [attribute?, Option.bind_eq_bind, Option.bind_eq_some_iff, Prod.exists] at h
  obtain ⟨name, rest, hname, type, htype, h⟩ := h
  obtain ⟨hn, hrest⟩ := isName_of_name? hname
  split at h
  next type =>
    cases h
    have hphrase := isPhrase_of_annotation? (ht.sublist hrest) htype
    exact ⟨by rwa [String.toList_ofList], by rwa [String.toList_ofList]⟩
  next => cases h

theorem isPhrase_void : IsPhrase ends "void".toList :=
  ⟨by simp, ⟨by simp; decide, by simp; decide⟩, by simp [Clear, ends]⟩

theorem isReadable_of_method? {m : Method} (ht : Clear ends text)
    (h : method? text = some m) : (Member.method m).IsReadable := by
  simp only [method?, Option.bind_eq_bind, Option.bind_eq_some_iff, Prod.exists] at h
  obtain ⟨name, rest, hname, h⟩ := h
  obtain ⟨hn, hrest⟩ := isName_of_name? hname
  split at h
  next behind hbehind =>
    have hbehind : Clear ends behind := ht.sublist <|
      ((List.sublist_cons_self '(' behind).trans (hbehind ▸ skipBlanks_sublist rest)).trans hrest
    split at h
    next inside after hcut =>
      obtain ⟨rfl, hclose⟩ := cut_eq_some_iff.1 hcut
      have hinside : Clear (')' :: ends) inside :=
        List.forall_mem_cons.2 ⟨hclose, hbehind.sublist (List.sublist_append_left _ _)⟩
      have hafter : Clear ends after := hbehind.sublist <|
        (List.sublist_cons_self ')' after).trans (List.sublist_append_right _ _)
      simp only [Option.bind_eq_some_iff, Option.some_inj] at h
      obtain ⟨returns, hreturns, rfl⟩ := h
      refine ⟨by rwa [String.toList_ofList], ?_, fun p hp => ?_⟩
      · cases returns with
        | none => exact isPhrase_void
        | some t =>
            rw [String.toList_ofList]
            exact isPhrase_of_annotation? hafter hreturns
      · obtain ⟨t, ht, rfl⟩ := List.mem_map.1 hp
        rw [String.toList_ofList]
        exact isPhrase_of_mem_items hinside ht
    next => cases h
  next => cases h

theorem isReadable_of_member? {m : Member} (ht : Clear ends text)
    (h : member? text = some m) : m.IsReadable := by
  rw [member?] at h
  split at h
  next method hm =>
    cases h
    exact isReadable_of_method? ht hm
  next =>
    obtain ⟨a, ha, rfl⟩ := Option.map_eq_some_iff.1 h
    exact isReadable_of_attribute? ht ha

def Member.display : Member → String
  | .attribute a => a.display
  | .method m => m.display

theorem toList_display_attribute (a : Attribute) :
    a.display.toList =
      a.visibility.symbol :: (a.name.toList ++ ':' :: ([' '] ++ a.type.toList)) := by
  simp [Attribute.display]

theorem toList_display_method (m : Method) :
    m.display.toList = m.visibility.symbol :: (m.name.toList ++ '(' ::
      ([',', ' '].intercalate (m.parameters.map String.toList) ++ ')' ::
        ':' :: ([' '] ++ m.returns.toList))) := by
  simp [Method.display, String.toList_intercalate]

theorem visibility_symbol (v : Visibility) (s : List Char) :
    visibility (v.symbol :: s) = (v, skipBlanks s) := by
  cases v <;> rfl

theorem annotation?_of_isPhrase (h : IsPhrase stops t) :
    annotation? (':' :: ([' '] ++ t)) = some (some t) := by
  rw [annotation?, skipBlanks_of_head (by simp; decide)]
  change (nonempty? (trim ([' '] ++ t))).map some = some (some t)
  rw [trim_append blanks_space, h.trimmed.trim_eq, nonempty?, if_neg (by simpa using h.ne_nil)]
  rfl

theorem items_of_isPhrase {c : Char} (h : IsPhrase stops t) (hc : c ∈ stops) : items c t = [t] :=
  items_of_isTrimmed (h.clear c hc) h.trimmed h.ne_nil

theorem flatMap_items_of_isPhrase {c : Char} {texts : List (List Char)} (hc : c ∈ stops)
    (h : ∀ t ∈ texts, IsPhrase stops t) : texts.flatMap (items c) = texts := by
  rw [List.flatMap_congr fun t ht => items_of_isPhrase (h t ht) hc, List.flatMap_singleton']

/-- Behind the name of a member, a mark that is no part of it. -/
theorem name?_isWord {c : Char} (hn : IsName isWord name) (hc : isWord c = false)
    (rest : List Char) :
    name? isWord (skipBlanks (name ++ c :: rest)) = some (name, c :: rest) := by
  rw [skipBlanks_of_head (not_isBlank_of_isName hn)]
  exact name?_eq_some_iff.2 ⟨rfl, hn, by simpa using hc⟩

theorem items_parameters {texts : List (List Char)}
    (h : ∀ t ∈ texts, IsPhrase (',' :: ')' :: ends) t) :
    items ',' ([',', ' '].intercalate texts) = texts := by
  have hsplit := items_intercalate (c := ',') (by decide) blanks_nil blanks_nil texts
  rwa [List.nil_append, List.append_nil, flatMap_items_of_isPhrase (by simp) h] at hsplit

theorem method?_display {m : Method} (h : (Member.method m).IsReadable) :
    method? m.display.toList = some m := by
  obtain ⟨hn, hr, hp⟩ := h
  have hphrases : ∀ t ∈ m.parameters.map String.toList, IsPhrase (',' :: ')' :: ends) t :=
    List.forall_mem_map.2 hp
  have hitems := items_parameters hphrases
  have hclose : ')' ∉ [',', ' '].intercalate (m.parameters.map String.toList) :=
    not_mem_intercalate (by simp) fun t ht => (hphrases t ht).clear ')' (by simp)
  have hname := name?_isWord hn (c := '(') (by decide +kernel)
  have hopen (s : List Char) : skipBlanks ('(' :: s) = '(' :: s :=
    skipBlanks_of_head (by simp; decide)
  rw [toList_display_method, method?, visibility_symbol]
  simp only [hname, hopen, cut_eq_some_iff.2 ⟨rfl, hclose⟩, annotation?_of_isPhrase hr,
    Option.bind_eq_bind, Option.bind_some]
  rw [items] at hitems
  simp [hitems]

theorem attribute?_display {a : Attribute} (h : (Member.attribute a).IsReadable) :
    method? a.display.toList = none ∧ attribute? a.display.toList = some a := by
  obtain ⟨hn, ht⟩ := h
  have hname := name?_isWord hn (c := ':') (by decide +kernel)
  have hcolon (s : List Char) : skipBlanks (':' :: s) = ':' :: s :=
    skipBlanks_of_head (by simp; decide)
  rw [toList_display_attribute, method?, attribute?, visibility_symbol]
  simp only [hname, hcolon, annotation?_of_isPhrase ht, Option.bind_eq_bind, Option.bind_some]
  simp

/-- What a member shows is read as that member. -/
theorem member?_display {m : Member} (h : m.IsReadable) : member? m.display.toList = some m := by
  rcases m with a | m
  · obtain ⟨hm, ha⟩ := attribute?_display h
    rw [Member.display, member?, hm, ha]
    rfl
  · rw [Member.display, member?, method?_display h]

theorem not_mem_of_isName {inner : Char → Bool} {c : Char} (h : IsName inner name)
    (hfirst : (isAsciiLetter c || c == '_') = false) (hc : inner c = false) : c ∉ name := by
  obtain ⟨d, s, rfl, hd, hs⟩ := h
  rw [List.mem_cons, not_or]
  exact ⟨fun he => by simp [← he, hfirst] at hd, fun hm => by simp [hs c hm] at hc⟩

theorem clear_of_isName (h : IsName isWord name) : Clear ends name := by
  simp only [Clear, ends, List.forall_mem_cons]
  refine ⟨?_, ?_, ?_, fun _ h => absurd h List.not_mem_nil⟩
  all_goals exact not_mem_of_isName h (by decide) (by decide +kernel)

theorem clear_symbol (v : Visibility) : Clear ends [v.symbol] := by
  cases v <;> simp [Clear, ends, Visibility.symbol]

/-- A mark of visibility, something in which no member ends, and a phrase. -/
theorem isPhrase_append (v : Visibility) (hs : Clear ends s) (ht : IsPhrase ends t) :
    IsPhrase ends (v.symbol :: (s ++ t)) := by
  refine ⟨List.cons_ne_nil _ _, ?_, (clear_symbol v).append (hs.append ht.clear)⟩
  rw [← List.cons_append]
  refine IsTrimmed.append ?_ ht.trimmed ht.ne_nil (List.cons_ne_nil _ _)
  cases v <;> simp [Visibility.symbol] <;> decide

theorem isPhrase_display {m : Member} (h : m.IsReadable) : IsPhrase ends m.display.toList := by
  rcases m with a | m
  · obtain ⟨hn, ht⟩ := h
    have hcolon : Clear ends [':', ' '] := by simp [Clear, ends]
    have hphrase := isPhrase_append a.visibility ((clear_of_isName hn).append hcolon) ht
    rw [List.append_assoc] at hphrase
    exact toList_display_attribute a ▸ hphrase
  · obtain ⟨hn, hr, hp⟩ := h
    have hopen : Clear ends ['('] := by simp [Clear, ends]
    have hcomma : Clear ends [',', ' '] := by simp [Clear, ends]
    have hclose : Clear ends [')', ':', ' '] := by simp [Clear, ends]
    have hinside : Clear ends ([',', ' '].intercalate (m.parameters.map String.toList)) :=
      fun c hc => not_mem_intercalate (hcomma c hc) <| List.forall_mem_map.2 fun p hpm =>
        (hp p hpm).clear c (List.mem_cons_of_mem _ (List.mem_cons_of_mem _ hc))
    have hphrase := isPhrase_append m.visibility
      ((clear_of_isName hn).append (hopen.append (hinside.append hclose))) hr
    simp only [List.append_assoc] at hphrase
    exact toList_display_method m ▸ hphrase

def Statement.IsReadable : Statement → Prop
  | .declare name _ => IsName isNameChar name.toList
  | .member owner m => IsName isNameChar owner.toList ∧ m.IsReadable
  | _ => True

def Mode.IsReadable : Mode → Prop
  | .outside => True
  | .declared name => IsName isNameChar name.toList
  | .inside name => IsName isNameChar name.toList

theorem isReadable_of_mem_memberTexts {m : Member} {body : List Char} (hb : Clear ['}', '\n'] body)
    (ht : t ∈ memberTexts body) (h : member? t = some m) : m.IsReadable :=
  isReadable_of_member? (isPhrase_of_mem_items hb ht).clear h

theorem isReadable_bodyStep (ho : IsName isNameChar owner.toList) (hnl : '\n' ∉ text) :
    (∀ s ∈ (bodyStep owner text).statements, s.IsReadable) ∧
      (bodyStep owner text).mode.IsReadable := by
  constructor
  · have hbody : Clear ['}', '\n'] (cut '}' text).1 := by
      simp only [Clear, List.forall_mem_cons]
      exact ⟨not_mem_fst_cut _ _, fun hm => hnl ((fst_cut_sublist _ _).subset hm),
        fun _ h => absurd h List.not_mem_nil⟩
    rw [statements_bodyStep, List.forall_mem_map]
    intro m hm
    rw [membersIn, List.flatMap_singleton] at hm
    obtain ⟨t, ht, hm⟩ := List.mem_filterMap.1 hm
    exact ⟨ho, isReadable_of_mem_memberTexts hbody ht hm⟩
  · rw [bodyStep]
    dsimp only
    split
    · trivial
    · exact ho

theorem isName_of_declaration? {d : Declaration} (h : declaration? text = some d) :
    IsName isNameChar d.name.toList ∧ ∀ body ∈ d.body, body.Sublist text := by
  obtain ⟨parent, body, -, -, hn, -, -⟩ := declaration?_eq_some_iff.1 h
  refine ⟨by rwa [String.toList_ofList], fun b hb => ?_⟩
  rw [show body = some b from hb]
  simp only [← List.append_assoc]
  exact (List.sublist_cons_self '{' b).trans (List.sublist_append_right _ _)

theorem isReadable_outsideStep (hnl : '\n' ∉ text) :
    (∀ s ∈ (outsideStep text).statements, s.IsReadable) ∧ (outsideStep text).mode.IsReadable := by
  rw [outsideStep]
  split
  next d hd =>
    obtain ⟨hn, hbody⟩ := isName_of_declaration? hd
    split
    next body hb =>
      obtain ⟨hs, hm⟩ := isReadable_bodyStep hn fun h => hnl ((hbody body hb).subset h)
      exact ⟨List.forall_mem_cons.2 ⟨hn, hs⟩, hm⟩
    next => exact ⟨List.forall_mem_singleton.2 hn, hn⟩
  next =>
    split
    next => exact ⟨List.forall_mem_singleton.2 trivial, trivial⟩
    next =>
      split
      next => exact ⟨List.forall_mem_singleton.2 trivial, trivial⟩
      next => exact ⟨fun _ h => absurd h List.not_mem_nil, trivial⟩

/-- Whatever a line says can be written again, if what the lines before it left open can. -/
theorem isReadable_step (hm : mode.IsReadable) (hnl : '\n' ∉ text) :
    (∀ s ∈ (step mode text).statements, s.IsReadable) ∧ (step mode text).mode.IsReadable := by
  rw [step.eq_def]
  split
  next => exact isReadable_bodyStep hm hnl
  next => exact isReadable_bodyStep hm fun h => hnl (List.mem_cons_of_mem _ h)
  next => exact isReadable_outsideStep hnl

theorem isReadable_statements {texts : List (List Char)} (hm : mode.IsReadable)
    (hnl : ∀ text ∈ texts, '\n' ∉ text) : ∀ s ∈ statements mode texts, s.IsReadable := by
  induction texts generalizing mode with
  | nil => exact fun _ h => absurd h List.not_mem_nil
  | cons text texts ih =>
      obtain ⟨htext, htexts⟩ := List.forall_mem_cons.1 hnl
      obtain ⟨hstatements, hmode⟩ := isReadable_step hm htext
      exact List.forall_mem_append.2 ⟨hstatements, ih hmode htexts⟩

def held (c : Compartments) : List Member := c.attributes.map .attribute ++ c.methods.map .method

theorem collect_held (c : Compartments) : collect (held c) = c := by
  simp [collect, held, List.filterMap_append, List.filterMap_map]

theorem map_display_held (c : Compartments) : (held c).map Member.display = c.lines := by
  simp [held, Compartments.lines, Function.comp_def, Member.display]

structure ClassEntry.IsReadable (e : ClassEntry) : Prop where
  name : IsName isNameChar e.name.toList
  members : ∀ m ∈ held e.compartments, m.IsReadable

theorem isReadable_add {c : Compartments} {m : Member} (hc : ∀ m ∈ held c, m.IsReadable)
    (hm : m.IsReadable) : ∀ k ∈ held (Compartments.add c m), k.IsReadable := by
  rcases m with a | m <;> simp_all [held, Compartments.add, or_imp, forall_and]

theorem isReadable_declareIn {table : List ClassEntry} {s : Statement}
    (ht : ∀ e ∈ table, e.IsReadable) (hs : s.IsReadable) :
    ∀ e ∈ declareIn table s, e.IsReadable := by
  have hempty : ∀ m ∈ held .empty, m.IsReadable := fun _ h => absurd h List.not_mem_nil
  cases s with
  | declare name parent =>
      exact forall_mem_update ht (fun _ => ⟨hs, hempty⟩) (fun e he _ => ⟨he.name, he.members⟩)
        fun e he _ => he
  | member owner m =>
      exact forall_mem_update ht (fun _ => ⟨hs.1, isReadable_add hempty hs.2⟩)
        (fun e he _ => ⟨he.name, isReadable_add he.members hs.2⟩) fun e he _ => he
  | relation r => exact ht
  | title t => exact ht

theorem isReadable_classTable {ss : List Statement} (hs : ∀ s ∈ ss, s.IsReadable) :
    ∀ e ∈ classTable ss, e.IsReadable :=
  List.foldlRecOn (motive := fun table => ∀ e ∈ table, ClassEntry.IsReadable e) ss declareIn
    (fun _ h => absurd h List.not_mem_nil) fun _ ht s hm => isReadable_declareIn ht (hs s hm)

theorem isReadable_of_mem_nodes {α : Type} [Scalar α] {ids rest : IdSupply} {d : Diagram α}
    {n : Node α} (h : parseWith .classes text ids = .ok (d, rest)) (hn : n ∈ d.nodes) :
    ∃ e : ClassEntry, e.IsReadable ∧ ∃ id, n = Sketch.Item.toNode .classes
      ⟨.classBox, e.name, some (.members e.compartments)⟩ id := by
  obtain ⟨-, -, rfl⟩ := parseWith_eq_ok h
  obtain ⟨item, hitem, id, rfl⟩ := Sketch.exists_item_of_mem_nodes hn
  obtain ⟨e, he, rfl⟩ := List.mem_map.1 hitem
  refine ⟨e, isReadable_classTable ?_ e he, id, rfl⟩
  rw [fst_readFrom]
  exact isReadable_statements trivial
    (List.forall_mem_map.2 fun line hline => (isContent_text hline).2)

def rewritten (label : String) (c : Compartments) : List Char :=
  ("class " ++ label ++ " \x7b " ++ String.intercalate "; " c.lines ++ " \x7d").toList

theorem rewritten_eq (label : String) (c : Compartments) :
    rewritten label c =
      Spelling.oneLine.write label.toList ((held c).map fun m => m.display.toList) := by
  have hlines : (held c).map (fun m => m.display.toList) = c.lines.map String.toList := by
    rw [← map_display_held, List.map_map]
    rfl
  simp [rewritten, hlines, Spelling.write, Spelling.lines, whole, heading, listed,
    String.toList_intercalate]

theorem exists_display_eq (m : Member) :
    ∃ (v : Visibility) (s : List Char), m.display.toList = v.symbol :: s := by
  rcases m with a | m
  · exact ⟨_, _, toList_display_attribute a⟩
  · exact ⟨_, _, toList_display_method m⟩

theorem isMemberLine_display {m : Member} (h : m.IsReadable) : IsMemberLine m.display.toList := by
  have hphrase := isPhrase_display h
  refine ⟨hphrase.clear _ (by simp [ends]), hphrase.clear _ (by simp [ends]), fun mark hm hp => ?_⟩
  obtain ⟨v, s, hv⟩ := exists_display_eq m
  rw [hphrase.trimmed.trim_eq, hv] at hp
  simp only [comments, List.mem_cons, List.not_mem_nil, or_false] at hm
  rcases hm with rfl | rfl <;> cases v <;> simp [Visibility.symbol] at hp

theorem membersIn_display {members : List Member} (h : ∀ m ∈ members, m.IsReadable) :
    (members.map fun m => m.display.toList).flatMap memberTexts =
        members.map (fun m => m.display.toList) ∧
      membersIn (members.map fun m => m.display.toList) = members := by
  have htexts : (members.map fun m => m.display.toList).flatMap memberTexts =
      members.map fun m => m.display.toList :=
    flatMap_items_of_isPhrase (show ';' ∈ ends by simp [ends])
      (List.forall_mem_map.2 fun m hm => isPhrase_display (h m hm))
  refine ⟨htexts, ?_⟩
  rw [membersIn, htexts, List.filterMap_map]
  exact (List.filterMap_congr fun m hm => member?_display (h m hm)).trans List.filterMap_some

theorem skipped_oneLine {ms : List (List Char)} (hn : IsName isNameChar name)
    (hms : ∀ m ∈ ms, IsMemberLine m) (hall : ∀ t ∈ ms.flatMap memberTexts, (member? t).isSome) :
    (readFrom .outside (sourceLines comments (Spelling.oneLine.write name ms))).2 = [] := by
  have htexts := map_text_write hn (fun m hm => (hms m hm).newline) .oneLine (by simp)
  rw [Spelling.lines, filter_counts_cons (isTrimmed_whole hn ms) (counts_whole _ _)] at htexts
  obtain ⟨line, lines, hl, hline, hlines⟩ := List.map_eq_cons_iff.1 htexts
  have hbrace : '}' ∉ listed ms :=
    not_mem_listed (by decide) (by decide) fun m hm => (hms m hm).brace
  have hunderstood : (step .outside line.text).understood := by
    rw [step.eq_def, hline]
    dsimp only
    rw [whole, outsideStep_heading_brace hn]
    change (bodyStep (String.ofList name) (listed ms ++ ['}'])).understood
    rwa [understood_bodyStep, cut_eq_some_iff.2 ⟨rfl, hbrace⟩, memberTexts_listed]
  rw [hl, List.map_eq_nil_iff.1 hlines, readFrom]
  simp [hunderstood, readFrom]

/-- The box of a class is read again from what it shows. -/
theorem parseWith_rewritten {α : Type} [Scalar α] {ids rest : IdSupply} {d : Diagram α} {n : Node α}
    (h : parseWith .classes text ids = .ok (d, rest)) (hn : n ∈ d.nodes) :
    ∃ c, n.data = some (.members c) ∧ ∀ ids' : IdSupply,
      ∃ (d' : Diagram α) (rest' : IdSupply),
        parseWith .classes (rewritten n.label c) ids' = .ok (d', rest') ∧
          d'.nodes = [{ n with id := (ids'.next "node").1 }] ∧ d'.skipped = [] := by
  obtain ⟨e, he, id, rfl⟩ := isReadable_of_mem_nodes h hn
  refine ⟨e.compartments, rfl, fun ids' => ?_⟩
  have hms : ∀ m ∈ (held e.compartments).map fun m => m.display.toList, IsMemberLine m :=
    List.forall_mem_map.2 fun m hm => isMemberLine_display (he.members m hm)
  obtain ⟨htexts, hmembers⟩ := membersIn_display he.members
  have hdescribes := describes_write he.name hms .oneLine (by simp)
  have hall : ∀ t ∈ (held e.compartments).map fun m => m.display.toList, (member? t).isSome :=
    List.forall_mem_map.2 fun m hm => Option.isSome_of_mem (member?_display (he.members m hm))
  have hskipped := skipped_oneLine he.name hms (htexts.symm ▸ hall)
  rw [hmembers, String.ofList_toList] at hdescribes
  have hparse := hdescribes.parseWith_eq (α := α) ids'
  rw [collect_held, hskipped] at hparse
  rw [show (Sketch.Item.toNode .classes ⟨.classBox, e.name, some (.members e.compartments)⟩ id :
    Node α).label = e.name from rfl, rewritten_eq]
  exact ⟨_, _, hparse, rfl, rfl⟩

def markedMembers : List Char :=
  ("class Ledger \x7b\n ~ total : map<a:(b)>; add( x: int ,, y ) : Result: ok\n" ++
    " ?\n #close()\n\x7d").toList

def markedMembersBox : Compartments where
  attributes := [⟨"total", "map<a:(b)>", .isPublic⟩]
  methods := [⟨"add", "Result: ok", ["x: int", "y"], .isPublic⟩,
    ⟨"close", "void", [], .isProtected⟩]

theorem markedMembers_rewritten :
    ∃ (d d' : Diagram Float32) (rest rest' : IdSupply) (n : Node Float32),
      parseWith .classes markedMembers .fresh = .ok (d, rest) ∧ d.skipped = [3] ∧ n ∈ d.nodes ∧
        n.data = some (.members markedMembersBox) ∧
        rewritten n.label markedMembersBox = ("class Ledger \x7b +total: map<a:(b)>; " ++
          "+add(x: int, y): Result: ok; #close(): void \x7d").toList ∧
        parseWith .classes (rewritten n.label markedMembersBox) .fresh = .ok (d', rest') ∧
        d'.nodes = [n] ∧ d'.skipped = [] := by
  have hread : readFrom .outside (sourceLines comments markedMembers) =
      (.declare "Ledger" none :: (held markedMembersBox).map (.member "Ledger"), [3]) := by
    decide +kernel
  have hdescribes : Describes (readFrom .outside (sourceLines comments markedMembers)).1 "Ledger"
      (held markedMembersBox) := by
    rw [hread]
    exact describes_declare _ _
  have hparse := hdescribes.parseWith_eq (α := Float32) .fresh
  rw [hread, collect_held] at hparse
  obtain ⟨c, hc, hagain⟩ := parseWith_rewritten hparse (List.mem_singleton_self _)
  obtain rfl : markedMembersBox = c := NodeData.members.inj (Option.some.inj hc)
  obtain ⟨d', rest', hd', hnodes, hskipped⟩ := hagain .fresh
  exact ⟨_, d', _, rest', _, hparse, rfl, List.mem_singleton_self _, rfl, by decide +kernel, hd',
    hnodes, hskipped⟩

end Drafting.Source.ClassText
