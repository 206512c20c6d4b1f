import Mathlib.Data.List.Basic
import Drafting.Proofs.Text.Scan
import Drafting.Source

namespace Drafting.Source

open Text

variable {kind : DiagramKind} {text : List Char} {first : Line}

/-- Outlines are given what others are, less the lines that a number sign begins. -/
theorem contentLines_outline (text : List Char) :
    contentLines Outline.marks text =
      (contentLines comments text).filter fun l => !"#".toList.isPrefixOf l.text := by
  rw [contentLines, contentLines, List.filter_filterMap]
  refine List.filterMap_congr fun p _ => ?_
  rw [Line.ofRaw?, Line.ofRaw?, Outline.marks, List.any_append, ← Bool.or_assoc]
  cases (trim p.1).isEmpty || comments.any fun mark => mark.isPrefixOf (trim p.1) with
  | true => rfl
  | false =>
      cases h : "#".toList.isPrefixOf (trim p.1) <;> simp_all [Option.filter]

/-- The first line that is a comment in no other language is one in outlines. -/
def BeginsWithSign (text : List Char) : Prop :=
  ∃ l, (contentLines comments text).head? = some l ∧ "#".toList <+: l.text

theorem header?_of_sign {s : List Char} (h : "#".toList <+: s) : header? s = none := by
  obtain ⟨s, rfl⟩ := h
  have hwords : ∀ p ∈ headerWords, p.1.head? ≠ some '#' := by decide +kernel
  have hword (w : List Char) : headerWords.lookup ('#' :: w) = none := by
    refine List.lookup_eq_none_iff.2 fun p hp => bne_iff_ne.2 fun he => hwords p hp ?_
    rw [← he, List.head?_cons]
  have hfirst : ((("#".toList ++ s).takeWhile fun c => !isBlank c).map Char.toLower) =
      '#' :: (s.takeWhile fun c => !isBlank c).map Char.toLower := by
    simp [show isBlank '#' = false by decide,
      show Char.toLower '#' = '#' by decide]
  rw [header?, hfirst, hword, ite_self]

/-- A comment of outlines is taken for a link if it looks like one. -/
theorem detect?_of_sign (hf : (contentLines comments text).head? = some first)
    (h : "#".toList <+: first.text) :
    detect? text =
      if first.text.contains '(' && occursIn "->".toList first.text then some .useCase
      else none := by
  obtain ⟨s, hs⟩ := h
  have hsign : caseless? "#".toList first.text = some s :=
    caseless?_eq_some_iff.2 ⟨"#".toList, hs.symm, by decide +kernel⟩
  have hclass : caseless? "class ".toList first.text = none := caseless?_eq_none hsign (by decide)
  have hparticipant : caseless? "participant ".toList first.text = none :=
    caseless?_eq_none hsign (by decide)
  have hactor : caseless? "actor ".toList first.text = none := caseless?_eq_none hsign (by decide)
  simp only [detect?, hf, Option.bind_eq_bind, Option.bind_some, header?_of_sign ⟨s, hs⟩, hclass,
    hparticipant, hactor, Option.isSome_none, Bool.false_or, Bool.false_eq_true, if_false,
    Option.none_or]

theorem detect?_of_header (hf : (contentLines comments text).head? = some first)
    (hh : header? first.text = some kind) : detect? text = some kind := by
  rw [detect?, hf, Option.bind_eq_bind, Option.bind_some]
  dsimp only
  rw [hh]
  rfl

theorem sourceLines_of_header {marks : List (List Char)}
    (hf : (contentLines marks text).head? = some first) (hh : (header? first.text).isSome) :
    sourceLines marks text = (contentLines marks text).tail := by
  obtain ⟨rest, hl⟩ := List.head?_eq_some_iff.1 hf
  rw [sourceLines, hl, dropHeader, if_pos hh, List.tail_cons]

/-- A header that a reader drops is the one that tells the kind, but for outlines that begin with a
comment of their own: no outline is seen in those. -/
theorem header_detected_iff (hf : (contentLines (marks kind) text).head? = some first)
    (hh : header? first.text = some kind) :
    sourceLines (marks kind) text = (contentLines (marks kind) text).tail ∧
      (detect? text = some kind ↔ ¬ (kind = .mindmap ∧ BeginsWithSign text)) := by
  refine ⟨sourceLines_of_header hf (hh ▸ rfl), ?_⟩
  constructor
  · rintro hd ⟨rfl, l, hl, hs⟩
    rw [detect?_of_sign hl hs] at hd
    split at hd <;> cases hd
  · intro hn
    refine detect?_of_header ?_ hh
    by_cases hk : kind = .mindmap
    · subst hk
      have hsign : ¬ BeginsWithSign text := fun h => hn ⟨rfl, h⟩
      rw [show marks .mindmap = Outline.marks from rfl, contentLines_outline] at hf
      cases hl : contentLines comments text with
      | nil => simp [hl] at hf
      | cons l ls =>
          have hs : "#".toList.isPrefixOf l.text = false := by
            rw [← Bool.not_eq_true, List.isPrefixOf_iff_prefix]
            exact fun hp => hsign ⟨l, by rw [hl]; rfl, hp⟩
          rw [hl, List.filter_cons, hs] at hf
          exact hf
    · rwa [show marks kind = comments by cases kind <;> first | rfl | exact absurd rfl hk] at hf

def commentedOutline : List Char := "%% plan\nmindmap\n# later\nIdea".toList

theorem commentedOutline_header_detected :
    (contentLines (marks .mindmap) commentedOutline).head? = some ⟨2, 0, "mindmap".toList⟩ ∧
      header? "mindmap".toList = some .mindmap ∧
      sourceLines (marks .mindmap) commentedOutline =
        (contentLines (marks .mindmap) commentedOutline).tail ∧
      (detect? commentedOutline = some .mindmap ↔
        ¬ (DiagramKind.mindmap = .mindmap ∧ BeginsWithSign commentedOutline)) ∧
      detect? commentedOutline = some .mindmap := by
  have h := @header_detected_iff .mindmap commentedOutline ⟨2, 0, "mindmap".toList⟩ rfl rfl
  exact ⟨rfl, rfl, h.1, h.2, rfl⟩

/-- The header of this outline is dropped without being seen. -/
theorem signed_header_not_detected :
    sourceLines (marks .mindmap) "# plan\nmindmap\nIdea".toList = [⟨3, 0, "Idea".toList⟩] ∧
      detect? "# plan\nmindmap\nIdea".toList = none ∧
      ¬ ∀ (kind : DiagramKind) (text : List Char) (first : Line),
        (contentLines (marks kind) text).head? = some first → header? first.text = some kind →
          detect? text = some kind := by
  refine ⟨rfl, rfl, fun h => ?_⟩
  have hd := h .mindmap "# plan\nmindmap\nIdea".toList ⟨2, 0, "mindmap".toList⟩ rfl rfl
  rw [show detect? "# plan\nmindmap\nIdea".toList = none from rfl] at hd
  cases hd

end Drafting.Source
