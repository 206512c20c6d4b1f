import Drafting.Proofs.Source.Line

namespace Drafting.Source.Flow

open Text

variable {name s t gap gap' : List Char}

inductive Shaft where
  | short
  | long
deriving DecidableEq

def Shaft.text : Shaft → List Char
  | .short => "->".toList
  | .long => "-->".toList

structure Chain where
  first : List Char
  rest : List (Shaft × List Char)
  label : Option (List Char)

namespace Chain

def names (c : Chain) : List (List Char) := c.first :: c.rest.map Prod.snd

def hop (h : Shaft × List Char) : List Char := ' ' :: (h.1.text ++ ' ' :: h.2)

def body (c : Chain) : List Char := c.first ++ c.rest.flatMap hop

def note : Option (List Char) → List Char
  | none => []
  | some label => " : ".toList ++ label

def write (c : Chain) : List Char := c.body ++ note c.label

def said (c : Chain) : Statement := .chain (c.names.map String.ofList) (c.label.map String.ofList)

end Chain

structure IsFlowName (name : List Char) : Prop where
  ne_nil : name ≠ []
  trimmed : IsTrimmed name
  plain : ∀ c ∈ [':', '"', '\n'], c ∉ name
  arrow : ¬ "->".toList <:+: name

structure Chain.IsWritable (c : Chain) : Prop where
  names : ∀ name ∈ c.names, IsFlowName name
  label : ∀ label ∈ c.label, label ≠ [] ∧ IsTrimmed label ∧ '\n' ∉ label
  arrow : c.rest = [] → c.label = none

section

theorem splitArrows_ne_nil (s : List Char) : splitArrows s ≠ [] := by
  rw [splitArrows.eq_def]
  split
  · simp
  · simp
  · simp
  · split <;> simp

theorem splitArrows_cons {c : Char} (h : ¬ "->".toList <+: c :: s)
    (h' : ¬ "-->".toList <+: c :: s) :
    splitArrows (c :: s) = (splitArrows s).modifyHead (c :: ·) := by
  rw [splitArrows.eq_def]
  split
  next he => cases he
  next he =>
    cases he
    exact absurd ⟨_, rfl⟩ h'
  next he =>
    cases he
    exact absurd ⟨_, rfl⟩ h
  next he =>
    cases he
    cases hs : splitArrows s with
    | nil => exact absurd hs (splitArrows_ne_nil s)
    | cons p ps => rfl

def IsStop (s : List Char) : Prop := ∀ c ∈ s.head?, c ≠ '-' ∧ c ≠ '>'

theorem not_arrow_prefix_append (h : ¬ "->".toList <:+: name) (hs : IsStop s) :
    ¬ "->".toList <+: name ++ s := by
  change ¬ ['-', '>'] <+: name ++ s
  rcases name with _ | ⟨c, _ | ⟨d, name⟩⟩
  · cases s with
    | nil => simp
    | cons c s => exact fun hp => (hs c rfl).1 (List.cons_prefix_cons.1 hp).1.symm
  · cases s with
    | nil => simp
    | cons d s =>
        intro hp
        have hp := (List.cons_prefix_cons.1 hp).2
        exact (hs d rfl).2 (List.cons_prefix_cons.1 hp).1.symm
  · intro hp
    obtain ⟨hc, hp⟩ := List.cons_prefix_cons.1 hp
    obtain ⟨hd, -⟩ := List.cons_prefix_cons.1 hp
    subst hc hd
    exact h ⟨[], name, rfl⟩

/-- A text without an arrow stays whole in front of one that does not go on with an arrow. -/
theorem splitArrows_append (h : ¬ "->".toList <:+: name) (hs : IsStop s) :
    splitArrows (name ++ s) = (splitArrows s).modifyHead (name ++ ·) := by
  induction name with
  | nil =>
      obtain ⟨p, ps, hp⟩ := List.exists_cons_of_ne_nil (splitArrows_ne_nil s)
      rw [List.nil_append, hp]
      rfl
  | cons c name ih =>
      have hname : ¬ "->".toList <:+: name := fun hi =>
        h (hi.trans (List.suffix_cons c name).isInfix)
      have hshort : ¬ "->".toList <+: c :: (name ++ s) := not_arrow_prefix_append h hs
      have hlong : ¬ "-->".toList <+: c :: (name ++ s) := fun hp =>
        not_arrow_prefix_append hname hs (List.cons_prefix_cons.1 hp).2
      rw [List.cons_append, splitArrows_cons hshort hlong, ih hname, List.modifyHead_modifyHead]
      rfl

theorem splitArrows_of_not_infix (h : ¬ "->".toList <:+: name) : splitArrows name = [name] := by
  have happend := splitArrows_append (s := []) h (by simp [IsStop])
  simpa [splitArrows] using happend

theorem splitArrows_shaft (shaft : Shaft) (s : List Char) :
    splitArrows (' ' :: (shaft.text ++ s)) = [' '] :: splitArrows s := by
  cases shaft <;> rfl

theorem isStop_of_blanks (hg : Blanks gap) (hs : IsStop s) : IsStop (gap ++ s) := by
  cases gap with
  | nil => exact hs
  | cons b gap =>
      have hb : isBlank b := hg b List.mem_cons_self
      refine fun c hc => ?_
      obtain rfl : b = c := Option.some.inj hc
      constructor <;> rintro rfl <;> revert hb <;> decide

theorem not_arrow_infix_of_not_mem (hd : '-' ∉ gap) (h : ¬ "->".toList <:+: name) :
    ¬ "->".toList <:+: gap ++ name := by
  induction gap with
  | nil => exact h
  | cons b gap ih =>
      obtain ⟨hb, hgap⟩ := List.ne_and_not_mem_of_not_mem_cons hd
      rw [List.cons_append, List.infix_cons_iff, not_or]
      exact ⟨fun hp => hb (List.cons_prefix_cons.1 hp).1, ih hgap⟩

theorem not_arrow_infix_append (hg : Blanks gap) (h : ¬ "->".toList <:+: name) :
    ¬ "->".toList <:+: gap ++ name :=
  not_arrow_infix_of_not_mem (hg.not_mem (by decide)) h

/-- White space around a name is taken away. -/
theorem unquote_padded (hn : IsFlowName name) (hg : Blanks gap) (hg' : Blanks gap') :
    unquote (gap ++ (name ++ gap')) = name := by
  have htrim : trim (gap ++ (name ++ gap')) = name := by
    rw [trim_append hg, trim_append_blanks hg', hn.trimmed.trim_eq]
  rw [unquote, htrim]
  split
  next inner => exact absurd List.mem_cons_self (hn.plain '"' (by decide))
  next => rfl

/-- Names with arrows between them come apart into the names. -/
theorem map_unquote_splitArrows (hn : IsFlowName name) {rest : List (Shaft × List Char)}
    (hrest : ∀ h ∈ rest, IsFlowName h.2) (hg : Blanks gap) (hg' : Blanks gap') :
    (splitArrows (gap ++ (name ++ (rest.flatMap Chain.hop ++ gap')))).map unquote =
      name :: rest.map Prod.snd := by
  induction rest generalizing gap name with
  | nil =>
      have harrow := not_arrow_infix_append hg hn.arrow
      have hstop : IsStop gap' := by simpa using isStop_of_blanks (s := []) hg' (by simp [IsStop])
      have hend : splitArrows gap' = [gap'] := by
        have hnone := not_arrow_infix_append hg' (show ¬ "->".toList <:+: [] by simp)
        rw [List.append_nil] at hnone
        exact splitArrows_of_not_infix hnone
      rw [List.flatMap_nil, List.nil_append, ← List.append_assoc, splitArrows_append harrow hstop,
        hend, List.modifyHead_cons, List.map_singleton, List.append_assoc, unquote_padded hn hg hg']
      rfl
  | cons h rest ih =>
      obtain ⟨hh, hrest⟩ := List.forall_mem_cons.1 hrest
      have harrow := not_arrow_infix_append hg hn.arrow
      let behind := [' '] ++ (h.2 ++ (rest.flatMap Chain.hop ++ gap'))
      have hsplit : splitArrows (gap ++ (name ++ ((h :: rest).flatMap Chain.hop ++ gap'))) =
          (gap ++ (name ++ [' '])) :: splitArrows behind := by
        calc splitArrows (gap ++ (name ++ ((h :: rest).flatMap Chain.hop ++ gap')))
            = splitArrows ((gap ++ name) ++ ' ' :: (h.1.text ++ behind)) := by
              simp [Chain.hop, behind]
          _ = ([' '] :: splitArrows behind).modifyHead ((gap ++ name) ++ ·) := by
              rw [splitArrows_append harrow (by simp [IsStop]), splitArrows_shaft]
          _ = (gap ++ (name ++ [' '])) :: splitArrows behind := by simp
      rw [hsplit, List.map_cons, unquote_padded hn hg blanks_space, ih hh hrest blanks_space]
      rfl

end

section

variable {c : Chain}

namespace Chain.IsWritable

theorem first (h : c.IsWritable) : IsFlowName c.first := h.names _ List.mem_cons_self

theorem rest (h : c.IsWritable) : ∀ hop ∈ c.rest, IsFlowName hop.2 := fun _ hm =>
  h.names _ (List.mem_cons_of_mem _ (List.mem_map_of_mem hm))

/-- A character that is in no name and in no arrow is not in front of the label. -/
theorem not_mem_body (h : c.IsWritable) {x : Char} (hx : x ∈ [':', '\n']) : x ∉ c.body := by
  have hplain {name : List Char} (hn : IsFlowName name) : x ∉ name := by
    refine hn.plain x ?_
    rcases List.mem_pair.1 hx with rfl | rfl <;> decide
  have harrow (shaft : Shaft) : x ∉ shaft.text := by
    rcases List.mem_pair.1 hx with rfl | rfl <;> cases shaft <;> decide
  have hspace : x ≠ ' ' := by
    rcases List.mem_pair.1 hx with rfl | rfl <;> decide
  rw [body, List.mem_append, List.mem_flatMap, not_or]
  refine ⟨hplain h.first, fun ⟨p, hp, hm⟩ => ?_⟩
  simp only [hop, List.mem_cons, List.mem_append, hspace, false_or] at hm
  exact hm.elim (harrow p.1) (hplain (h.rest p hp))

theorem newline_not_mem_write (h : c.IsWritable) : '\n' ∉ c.write := by
  rw [write, List.mem_append, not_or]
  refine ⟨h.not_mem_body (by decide), ?_⟩
  cases hl : c.label with
  | none => exact List.not_mem_nil
  | some label =>
      rw [note, List.mem_append, not_or]
      exact ⟨by decide, (h.label label hl).2.2⟩

theorem head_body (h : c.IsWritable) : ∀ x ∈ c.body.head?, isBlank x = false := by
  rw [body, List.head?_append_of_ne_nil _ h.first.ne_nil]
  exact h.first.trimmed.head

theorem body_ne_nil (h : c.IsWritable) : c.body ≠ [] :=
  List.append_ne_nil_of_left_ne_nil h.first.ne_nil _

theorem isTrimmed_body (h : c.IsWritable) : IsTrimmed c.body := by
  rcases List.eq_nil_or_concat c.rest with hr | ⟨front, last, hr⟩
  · rw [body, hr, List.flatMap_nil, List.append_nil]
    exact h.first.trimmed
  · have hlast : IsFlowName last.2 := h.rest last (by simp [hr])
    have hbody : c.body =
        (c.first ++ (front.flatMap hop ++ ' ' :: (last.1.text ++ [' ']))) ++ last.2 := by
      simp [body, hr, hop]
    rw [hbody]
    refine .append ?_ hlast.trimmed hlast.ne_nil
      (List.append_ne_nil_of_left_ne_nil h.first.ne_nil _)
    rw [List.head?_append_of_ne_nil _ h.first.ne_nil]
    exact h.first.trimmed.head

theorem isTrimmed_write (h : c.IsWritable) : IsTrimmed c.write := by
  rw [write]
  cases hl : c.label with
  | none =>
      rw [note, List.append_nil]
      exact h.isTrimmed_body
  | some label =>
      obtain ⟨hne, ht, -⟩ := h.label label hl
      rw [note, ← List.append_assoc]
      refine .append ?_ ht hne (List.append_ne_nil_of_left_ne_nil h.body_ne_nil _)
      rw [List.head?_append_of_ne_nil _ h.body_ne_nil]
      exact h.head_body

/-- What stands in front of the colon, or the whole line, comes apart into the names. -/
theorem map_unquote_body (h : c.IsWritable) (hg : Blanks gap) :
    (splitArrows (c.body ++ gap)).map unquote = c.names := by
  have hsplit := map_unquote_splitArrows h.first h.rest blanks_nil hg
  rwa [List.nil_append, ← List.append_assoc] at hsplit

end Chain.IsWritable

/-- A chain that is written on a line is read as it is. -/
theorem statement?_write (h : c.IsWritable) (ht : title? c.write = none) {line : Line}
    (hl : line.text = c.write) : statement? line = some c.said := by
  have hempty : c.names.any List.isEmpty = false := by
    rw [List.any_eq_false]
    exact fun name hn he => (h.names name hn).ne_nil (List.isEmpty_iff.1 he)
  have hcolon := h.not_mem_body (x := ':') (by decide)
  have hnames : (splitArrows (cut ':' c.write).1).map unquote = c.names ∧
      (cut ':' c.write).2.bind (fun t => nonempty? (trim t)) = c.label := by
    rw [Chain.write]
    cases hlabel : c.label with
    | none =>
        rw [Chain.note, List.append_nil, cut_of_not_mem hcolon]
        refine ⟨?_, rfl⟩
        simpa using h.map_unquote_body blanks_nil
    | some label =>
        obtain ⟨hne, htrim, -⟩ := h.label label hlabel
        have hcut : cut ':' (c.body ++ Chain.note (some label)) =
            (c.body ++ [' '], some (' ' :: label)) :=
          cut_eq_some_iff.2 ⟨by simp [Chain.note], by simp [hcolon]⟩
        have htail : trim (' ' :: label) = label :=
          (trim_append blanks_space label).trans htrim.trim_eq
        rw [hcut]
        refine ⟨h.map_unquote_body blanks_space, ?_⟩
        exact (congrArg nonempty? htail).trans (nonempty?_eq_some_iff.2 ⟨rfl, hne⟩)
  have hsingle : (c.names.length == 1 && c.label.isSome) = false := by
    by_cases hr : c.rest = []
    · rw [h.arrow hr]
      simp
    · simp [Chain.names, hr]
  rw [statement?, hl, ht]
  dsimp only
  rw [hnames.1, hnames.2, hempty, hsingle]
  rfl

end

end Drafting.Source.Flow
