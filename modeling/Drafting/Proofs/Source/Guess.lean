import Drafting.Number.Binary32
import Drafting.Proofs.Source.Grammar.ClassText
import Drafting.Proofs.Source.Grammar.UseCase
import Drafting.Proofs.Source.Mirror

namespace Drafting.Source

open Text

variable {α σ : Type} [Scalar α] {kind : DiagramKind} {text : List Char} {ids : IdSupply}
  {first : Line} {lines : List Line}

theorem items_foldl_ne_nil {apply : Sketch → σ → Sketch} {s : Sketch}
    (hle : ∀ s statement, s.items.length ≤ (apply s statement).items.length) (h : s.items ≠ [])
    (statements : List σ) : (statements.foldl apply s).items ≠ [] :=
  List.foldlRecOn (motive := fun s => s.items ≠ []) statements apply h fun s h statement _ => by
    rw [← List.length_pos_iff] at h ⊢
    exact h.trans_le (hle s statement)

namespace Conversation

variable {s : Sketch} {statement : Statement} {statements : List Statement}

theorem length_items_apply_le (s : Sketch) (statement : Statement) :
    s.items.length ≤ (apply s statement).items.length := by
  cases statement with
  | message source target kind text =>
      exact (s.length_le_ensure _ _).trans ((actor s source).1.length_le_ensure _ _)
  | declare name => exact s.length_le_ensure _ _
  | title t => exact le_rfl

theorem items_apply_ne_nil (h : statement.names) : (apply s statement).items ≠ [] := by
  rw [← List.length_pos_iff]
  cases statement with
  | message source target kind text =>
      let s' := (actor s source).1
      exact Nat.zero_lt_of_lt (s'.ensure_lt (·.label == target) ⟨.actor, target, none⟩)
  | declare name => exact Nat.zero_lt_of_lt (s.ensure_lt (·.label == name) ⟨.actor, name, none⟩)
  | title t => cases h

theorem items_sketch_ne_nil (h : statement.names) :
    (sketch (statement :: statements)).items ≠ [] :=
  items_foldl_ne_nil length_items_apply_le (items_apply_ne_nil h) statements

theorem isSome_title?_of_statement? (h : statement? first = some statement)
    (hn : statement.names = false) : (title? first.text).isSome := by
  rw [statement?] at h
  dsimp only at h
  split at h
  · simp only [Option.bind_eq_bind, Option.bind_eq_some_iff, Option.some_inj] at h
    obtain ⟨_, _, _, _, rfl⟩ := h
    cases hn
  split at h
  · cases h
    cases hn
  · obtain ⟨t, ht, -⟩ := Option.map_eq_some_iff.1 h
    exact ht ▸ rfl

theorem isSome_statement?_iff (ht : title? first.text = none) :
    (statement? first).isSome ↔ Names first.text := by
  rw [← exists_statement?_iff, Option.isSome_iff_exists]
  refine exists_congr fun statement => ⟨fun h => ⟨h, ?_⟩, And.left⟩
  cases hn : statement.names with
  | true => rfl
  | false => simpa [ht] using isSome_title?_of_statement? h hn

end Conversation

namespace UseCase

variable {s : Sketch} {statement : Statement} {statements : List Statement}

theorem length_items_apply_le (s : Sketch) (statement : Statement) :
    s.items.length ≤ (apply s statement).items.length := by
  have hensure (kind : NodeKind) (s : Sketch) (name : String) :
      s.items.length ≤ (ensure kind s name).1.items.length := s.length_le_ensure _ _
  cases statement with
  | relation source target => exact (hensure _ s source).trans (hensure _ _ target)
  | link actor useCase => exact (hensure _ s actor).trans (hensure _ _ useCase)
  | actor name | useCase name => exact hensure _ s name
  | title t => exact le_rfl

theorem items_apply_ne_nil (h : statement.names) : (apply s statement).items ≠ [] := by
  have hensure (kind : NodeKind) (s : Sketch) (name : String) :
      0 < (ensure kind s name).1.items.length := Nat.zero_lt_of_lt (hasKind_ensure kind s name).lt
  rw [← List.length_pos_iff]
  cases statement with
  | relation source target => exact hensure _ _ target
  | link actor useCase => exact hensure _ _ useCase
  | actor name | useCase name => exact hensure _ s name
  | title t => cases h

theorem items_sketch_ne_nil (h : statement.names) :
    (sketch (statement :: statements)).items ≠ [] :=
  items_foldl_ne_nil length_items_apply_le (items_apply_ne_nil h) statements

theorem isSome_title?_of_statement? (h : statement? first = some statement)
    (hn : statement.names = false) : (title? first.text).isSome := by
  rw [statement?] at h
  split at h
  next s hr =>
    cases h
    simp [names_of_relation? hr] at hn
  split at h
  · obtain ⟨_, -, rfl⟩ := Option.map_eq_some_iff.1 h
    cases hn
  · rcases Option.or_eq_some_iff.1 h with ha | ⟨-, h⟩
    · simp [names_of_declaredActor? ha] at hn
    rcases Option.or_eq_some_iff.1 h with hc | ⟨-, h⟩
    · simp [names_of_declaredCase? hc] at hn
    · obtain ⟨t, ht, -⟩ := Option.map_eq_some_iff.1 h
      exact ht ▸ rfl

/-- A title that does not look like a link is one, and a link whose actor has no name begins
otherwise. -/
theorem isSome_statement?_of_title? (h : (title? first.text).isSome) :
    (statement? first).isSome := by
  have hkeyword : ∃ rest, caseless? "title".toList first.text = some rest := by
    obtain ⟨t, ht⟩ := Option.isSome_iff_exists.1 h
    rw [title?, Option.bind_eq_bind, Option.bind_eq_some_iff] at ht
    exact ht.imp fun _ => And.left
  obtain ⟨c, t, htext, hc⟩ := exists_head_of_caseless? hkeyword.choose_spec
  rw [statement?]
  cases relation? first.text with
  | some s => rfl
  | none =>
      cases hl : linkParts? first.text with
      | some parts =>
          obtain ⟨actor, name, label⟩ := parts
          obtain ⟨d, s, rfl, hd, -⟩ := (exists_linkParts?_iff.1 ⟨name, label, hl⟩).exists_head
          rw [htext, List.head?_cons, Option.some_inj] at hd
          subst hd
          have hn : unquote (c :: s) ≠ [] := by
            have hb := not_isBlank_of_toLower hc (by decide)
            refine unquote_ne_nil_of_mem List.mem_cons_self hb ?_
            rintro rfl
            exact absurd hc (by decide)
          simpa using isSome_nonempty?_iff.2 hn
      | none => simp [h]

theorem isSome_statement?_iff :
    (statement? first).isSome ↔ Names first.text ∨ (title? first.text).isSome := by
  constructor
  · intro h
    obtain ⟨statement, hs⟩ := Option.isSome_iff_exists.1 h
    cases hn : statement.names with
    | true => exact .inl ((exists_statement?_iff first).1 ⟨statement, hs, hn⟩)
    | false => exact .inr (isSome_title?_of_statement? hs hn)
  · rintro (h | h)
    · obtain ⟨statement, hs, -⟩ := (exists_statement?_iff first).2 h
      exact hs ▸ rfl
    · exact isSome_statement?_of_title? h

end UseCase

namespace ClassText

variable {statements : List Statement}

theorem items_sketch_ne_nil {name : String} {parent : Option String} :
    (sketch (.declare name parent :: statements)).items ≠ [] := by
  intro h
  have hname :
      name ∈ (sketch (.declare name parent :: statements)).items.map Sketch.Item.label := by
    rw [labels_sketch, List.mem_eraseDups]
    exact List.mem_cons_self
  rw [h] at hname
  exact List.not_mem_nil hname

theorem outsideStep_of_declaration? {d : Declaration} (h : declaration? text = some d) :
    (∃ more, (outsideStep text).statements = .declare d.name d.parent :: more) ∧
      ((outsideStep text).understood ↔ d.IsSound) := by
  obtain ⟨name, parent, body⟩ := d
  rw [outsideStep, h]
  cases body with
  | none => exact ⟨⟨[], rfl⟩, by simp [Declaration.IsSound]⟩
  | some body => exact ⟨⟨_, rfl⟩, by simp [Declaration.IsSound, bodyStep]⟩

theorem understood_outsideStep_iff :
    (outsideStep text).understood ↔ Declares text ∨ (relation? text).isSome ∨
      declaration? text = none ∧ (title? text).isSome := by
  cases hd : declaration? text with
  | some d =>
      have hr : relation? text = none := by
        by_contra hr
        simp [declaration?_eq_none_of_relation? (Option.isSome_iff_ne_none.2 hr)] at hd
      rw [(outsideStep_of_declaration? hd).2, ← exists_declaration?_iff]
      simp [hd, hr]
  | none =>
      have hn : ¬ Declares text := by simp [← exists_declaration?_iff, hd]
      rw [outsideStep, hd]
      cases hr : relation? text with
      | some r => simp
      | none => cases title? text <;> simp [hn]

end ClassText

/-- The shapes of line that a guess expects: those that something named is found in, the keyword of
a class counting in upper case as well. -/
def Fits : DiagramKind → List Char → Prop
  | .classes, text => ∃ word rest, text = word ++ rest ∧ word.map Char.toLower = "class".toList ∧
      ClassText.Declares ("class".toList ++ rest)
  | .sequence, text => Conversation.Names text
  | .useCase, text => UseCase.Names text
  | _, _ => False

theorem fits_classes_iff {text : List Char} (h : "class".toList <+: text) :
    Fits .classes text ↔ ClassText.Declares text := by
  obtain ⟨s, rfl⟩ := h
  constructor
  · rintro ⟨word, rest, he, hw, hd⟩
    have hlength : "class".toList.length = word.length := by rw [← hw, List.length_map]
    rwa [(List.append_inj he hlength).2]
  · exact fun h => ⟨_, s, rfl, by decide +kernel, h⟩

/-- Behind the keyword of a participant, only what is named may be missing. -/
theorem fits_participant_iff {text : List Char}
    (h : (caseless? "participant ".toList text).isSome) :
    Fits .sequence text ↔
      (∃ source target, Conversation.IsMessage text source target ∧ unquote target ≠ []) ∨
      (∀ source target, ¬ Conversation.IsMessage text source target) ∧
        unquote (text.drop "participant".length) ≠ [] := by
  have hdrop : IsDeclaration "participant".toList text ↔
      unquote (text.drop "participant".length) ≠ [] := isDeclaration_iff h
  obtain ⟨rest, hr⟩ := Option.isSome_iff_exists.1 h
  obtain ⟨c, s, rfl, hc⟩ := exists_head_of_caseless? hr
  constructor
  · intro hn
    cases hn with
    | message hm _ ht => exact .inl ⟨_, _, hm, ht⟩
    | declaration hm hd =>
        refine .inr ⟨hm, hdrop.1 (hd.resolve_right fun ha => ?_)⟩
        obtain ⟨d, t, he, hd⟩ := ha.exists_head
        rw [← (List.cons.inj he).1, hc] at hd
        exact absurd hd (by decide)
  · rintro (⟨source, target, hm, ht⟩ | ⟨hm, hn⟩)
    · obtain ⟨d, t, rfl, hd⟩ := hm.exists_head
      rw [List.head?_cons, Option.some_inj] at hd
      subst hd
      refine .message hm ?_ ht
      refine unquote_ne_nil_of_mem List.mem_cons_self (not_isBlank_of_toLower hc (by decide)) ?_
      rintro rfl
      exact absurd hc (by decide)
    · exact .declaration hm (.inl (hdrop.2 hn))

/-- Behind the keyword of an actor, only the name may be missing. -/
theorem fits_actor_iff {text : List Char} (h : (caseless? "actor ".toList text).isSome) :
    Fits .useCase text ↔ unquote (text.drop "actor".length) ≠ [] := by
  have hdrop : IsDeclaration "actor".toList text ↔ unquote (text.drop "actor".length) ≠ [] :=
    isDeclaration_iff h
  obtain ⟨rest, hr⟩ := Option.isSome_iff_exists.1 h
  obtain ⟨c, t, htext, hc⟩ := exists_head_of_caseless? hr
  have hhead : text.head? ≠ some '(' := by
    rw [htext, List.head?_cons, Ne, Option.some_inj]
    rintro rfl
    exact absurd hc (by decide)
  obtain ⟨word, rfl, hw⟩ := caseless?_eq_some_iff.1 hr
  constructor
  · intro hn
    cases hn with
    | relation h => exact absurd h.head? hhead
    | link h _ =>
        have hopen : '(' ∉ word := fun hm => by
          have hlower := List.mem_map_of_mem (f := Char.toLower) hm
          rw [hw] at hlower
          exact absurd hlower (by decide +kernel)
        have hlength : "actor".length ≤ word.length := by
          rw [← List.length_map (f := Char.toLower), hw]
          decide
        refine unquote_ne_nil_of_mem ?_ (by decide : isBlank '(' = false) (by decide)
        rw [List.drop_append_of_le_length hlength]
        exact List.mem_append_right _ ((List.mem_append.1 h.mem).resolve_left hopen)
    | actor h => exact hdrop.1 h
    | useCase h =>
        obtain ⟨name, he, -⟩ := h
        exact absurd (he ▸ rfl) hhead
  · exact fun hn => .actor (hdrop.2 hn)

def IsRemark (kind : DiagramKind) (text : List Char) : Prop :=
  (title? text).isSome ∨ kind = .classes ∧ (ClassText.relation? text).isSome

theorem guess_cases (hf : (contentLines comments text).head? = some first)
    (hh : header? first.text = none) (hd : detect? text = some kind) :
    kind = .classes ∧ (caseless? "class ".toList first.text).isSome ∨
      kind = .sequence ∧ (caseless? "participant ".toList first.text).isSome ∨
      kind = .useCase ∧ ((caseless? "actor ".toList first.text).isSome ∨
        '(' ∈ first.text ∧ occursIn "->".toList first.text) := by
  simp only [detect?, hf, hh, Option.bind_eq_bind, Option.bind_some, Option.none_or] at hd
  split at hd
  next h => exact .inl ⟨(Option.some.inj hd).symm, h⟩
  split at hd
  next h => exact .inr (.inl ⟨(Option.some.inj hd).symm, h⟩)
  split at hd
  next h =>
    refine .inr (.inr ⟨(Option.some.inj hd).symm, ?_⟩)
    simpa using h
  next => cases hd

theorem exists_parseWith_iff (kind : DiagramKind) (text : List Char) (ids : IdSupply)
    (p : List Nat → Prop) :
    (∃ (d : Diagram α) (rest : IdSupply),
        parseWith kind text ids = .ok (d, rest) ∧ p d.skipped) ↔
      (read kind (sourceLines (marks kind) text)).sketch.items ≠ [] ∧
        p (read kind (sourceLines (marks kind) text)).skipped := by
  constructor
  · rintro ⟨d, rest, h, hp⟩
    obtain ⟨hi, -, rfl⟩ := parseWith_eq_ok h
    exact ⟨hi, hp⟩
  · rintro ⟨hi, hp⟩
    exact ⟨_, _, parseWith_eq kind text ids hi, hp⟩

theorem number_mem_readLines_iff {recognise : Line → Option σ}
    (h : first.number ∉ lines.map Line.number) :
    first.number ∈ (readLines recognise (first :: lines)).2 ↔ recognise first = none := by
  have hrest : first.number ∉ (readLines recognise lines).2 :=
    fun hm => h ((skipped_readLines_sublist recognise lines).subset hm)
  cases hr : recognise first with
  | none => simp [readLines, hr]
  | some s => simpa [readLines, hr] using hrest

namespace ClassText

theorem items_read_ne_nil_of_declares (h : Declares first.text) :
    (sketch (readFrom .outside (first :: lines)).1).items ≠ [] := by
  obtain ⟨d, hd, -⟩ := exists_declaration?_iff.2 h
  obtain ⟨more, hs⟩ := (outsideStep_of_declaration? hd).1
  simp only [readFrom, step, hs, List.cons_append]
  exact items_sketch_ne_nil

theorem number_mem_readFrom_iff (h : first.number ∉ lines.map Line.number) :
    first.number ∈ (readFrom .outside (first :: lines)).2 ↔
      ¬ (outsideStep first.text).understood := by
  have hrest (mode : Mode) : first.number ∉ (readFrom mode lines).2 :=
    fun hm => h ((skipped_readFrom_sublist mode lines).subset hm)
  rw [show outsideStep first.text = step .outside first.text from rfl, readFrom]
  cases hu : (step .outside first.text).understood <;> simp [hrest]

end ClassText

theorem items_read_ne_nil_of_fits (lines : List Line)
    (hc : kind = .classes → "class".toList <+: first.text) (h : Fits kind first.text) :
    (read kind (first :: lines)).sketch.items ≠ [] := by
  cases kind with
  | classes => exact ClassText.items_read_ne_nil_of_declares ((fits_classes_iff (hc rfl)).1 h)
  | sequence =>
      obtain ⟨statement, hs, hn⟩ := (Conversation.exists_statement?_iff first).2 h
      simp only [read, readLines, List.filterMap_cons, hs]
      exact Conversation.items_sketch_ne_nil hn
  | useCase =>
      obtain ⟨statement, hs, hn⟩ := (UseCase.exists_statement?_iff first).2 h
      simp only [read, readLines, List.filterMap_cons, hs]
      exact UseCase.items_sketch_ne_nil hn
  | flow | generic | mindmap => exact h.elim

theorem title?_eq_none_of_caseless? {c : Char} {word s : List Char}
    (h : (caseless? (c :: word) s).isSome) (hc : c ≠ 't') : title? s = none := by
  obtain ⟨rest, hr⟩ := Option.isSome_iff_exists.1 h
  rw [title?, show caseless? "title".toList s = none from caseless?_eq_none hr hc]
  rfl

/-- A line that is guessed right is understood if it fits, or if it is a remark. -/
theorem number_mem_skipped_iff (hf : (contentLines comments text).head? = some first)
    (hh : header? first.text = none) (hd : detect? text = some kind)
    (hc : kind = .classes → "class".toList <+: first.text)
    (hn : first.number ∉ lines.map Line.number) :
    first.number ∉ (read kind (first :: lines)).skipped ↔
      Fits kind first.text ∨ IsRemark kind first.text := by
  rcases guess_cases hf hh hd with ⟨rfl, hw⟩ | ⟨rfl, hw⟩ | ⟨rfl, -⟩
  · have ht := title?_eq_none_of_caseless? hw (by decide)
    rw [read, ClassText.number_mem_readFrom_iff hn, not_not, ClassText.understood_outsideStep_iff,
      fits_classes_iff (hc rfl)]
    simp [IsRemark, ht]
  · have ht := title?_eq_none_of_caseless? hw (by decide)
    rw [read, number_mem_readLines_iff hn, ← Ne, ← Option.isSome_iff_ne_none,
      Conversation.isSome_statement?_iff ht]
    simp [Fits, IsRemark, ht]
  · rw [read, number_mem_readLines_iff hn, ← Ne, ← Option.isSome_iff_ne_none,
      UseCase.isSome_statement?_iff]
    simp [Fits, IsRemark]

/-- The text can be read as a diagram of the kind, and `line` is not one that is skipped. -/
def Understands (α : Type) [Scalar α] (kind : DiagramKind) (text : List Char) (ids : IdSupply)
    (line : Line) : Prop :=
  ∃ (d : Diagram α) (rest : IdSupply),
    parseWith kind text ids = .ok (d, rest) ∧ line.number ∉ d.skipped

theorem understands_iff (hf : (contentLines comments text).head? = some first)
    (hh : header? first.text = none) (hd : detect? text = some kind)
    (hc : kind = .classes → "class".toList <+: first.text) :
    Understands α kind text ids first ↔
      Fits kind first.text ∨ IsRemark kind first.text ∧
        ∃ (d : Diagram α) (rest : IdSupply), parseWith kind text ids = .ok (d, rest) := by
  obtain ⟨lines, hl⟩ := List.head?_eq_some_iff.1 hf
  have hmarks : marks kind = comments := by
    rcases guess_cases hf hh hd with ⟨rfl, -⟩ | ⟨rfl, -⟩ | ⟨rfl, -⟩ <;> rfl
  have hlines : sourceLines (marks kind) text = first :: lines :=
    sourceLines_of_no_header (hmarks ▸ hl) hh
  have hfresh : first.number ∉ lines.map Line.number := by
    have hsorted := pairwise_number_contentLines comments text
    rw [hl, List.map_cons, List.pairwise_cons] at hsorted
    exact fun hm => lt_irrefl _ (hsorted.1 _ hm)
  have hparse := exists_parseWith_iff (α := α) kind text ids
  have hok := hparse fun _ => True
  simp only [and_true] at hok
  rw [Understands, hparse fun skipped => first.number ∉ skipped, hok, hlines,
    number_mem_skipped_iff hf hh hd hc hfresh]
  have hfits := items_read_ne_nil_of_fits lines hc
  tauto

/-- Behind any other keyword than that of a class there is no remark, and the line has to fit. -/
theorem understands_iff_fits {c : Char} {word : List Char}
    (hf : (contentLines comments text).head? = some first) (hh : header? first.text = none)
    (hd : detect? text = some kind) (hk : kind ≠ .classes)
    (hw : (caseless? (c :: word) first.text).isSome) (hc : c ≠ 't') :
    Understands α kind text ids first ↔ Fits kind first.text := by
  have hremark : ¬ IsRemark kind first.text := by
    simp [IsRemark, hk, title?_eq_none_of_caseless? hw hc]
  rw [understands_iff hf hh hd (absurd · hk)]
  exact or_iff_left fun h => hremark h.1

/-- A kind that is guessed from the first line is right about that line just when the line fits, or
is a remark in a text that can be read. Behind the keywords of participants and actors that only
asks for names. -/
theorem guess_understood_iff (hf : (contentLines comments text).head? = some first)
    (hh : header? first.text = none) (hd : detect? text = some kind)
    (hc : kind = .classes → "class".toList <+: first.text) :
    (Understands α kind text ids first ↔
      Fits kind first.text ∨ IsRemark kind first.text ∧
        ∃ (d : Diagram α) (rest : IdSupply), parseWith kind text ids = .ok (d, rest)) ∧
    (kind = .sequence → (Understands α kind text ids first ↔
      (∃ source target, Conversation.IsMessage first.text source target ∧ unquote target ≠ []) ∨
      (∀ source target, ¬ Conversation.IsMessage first.text source target) ∧
        unquote (first.text.drop "participant".length) ≠ [])) ∧
    (kind = .useCase → (caseless? "actor ".toList first.text).isSome →
      (Understands α kind text ids first ↔ unquote (first.text.drop "actor".length) ≠ [])) := by
  refine ⟨understands_iff hf hh hd hc, ?_, ?_⟩
  · rintro rfl
    rcases guess_cases hf hh hd with ⟨h, -⟩ | ⟨-, hw⟩ | ⟨h, -⟩
    · cases h
    · rw [understands_iff_fits hf hh hd (by decide) hw (by decide), fits_participant_iff hw]
    · cases h
  · rintro rfl hw
    rw [understands_iff_fits hf hh hd (by decide) hw (by decide), fits_actor_iff hw]

def classFirst : List Char := "%% built first\nclass Porch\nPorch --> House".toList

theorem classFirst_guess_understood :
    (contentLines comments classFirst).head? = some ⟨2, 0, "class Porch".toList⟩ ∧
      header? "class Porch".toList = none ∧ detect? classFirst = some .classes ∧
      Fits .classes "class Porch".toList ∧
      Understands Float32 .classes classFirst .fresh ⟨2, 0, "class Porch".toList⟩ := by
  have hfits : Fits .classes "class Porch".toList :=
    (fits_classes_iff ⟨" Porch".toList, rfl⟩).2
      (ClassText.exists_declaration?_iff.1 ⟨_, rfl, fun _ h => nomatch h⟩)
  have h := @guess_understood_iff Float32 _ .classes classFirst .fresh
    ⟨2, 0, "class Porch".toList⟩ rfl rfl rfl fun _ => ⟨" Porch".toList, rfl⟩
  exact ⟨rfl, rfl, rfl, hfits, h.1.2 (.inl hfits)⟩

/-- A guess from a keyword with no name behind it is wrong about its line. -/
theorem participant_guess_not_understood :
    ¬ ∀ (kind : DiagramKind) (text : List Char) (first : Line),
      (contentLines comments text).head? = some first → header? first.text = none →
        detect? text = some kind → Understands Float32 kind text .fresh first := by
  intro h
  obtain ⟨d, rest, hd, hn⟩ := h .sequence "participant \"\"\nAnn -> Bob".toList
    ⟨1, 0, "participant \"\"".toList⟩ rfl rfl rfl
  obtain ⟨-, -, rfl⟩ := parseWith_eq_ok hd
  exact hn (by decide +kernel)

end Drafting.Source
