import Mathlib.Data.List.Nodup
import Drafting.Proofs.Source.Line
import Drafting.Proofs.Source.Reading

namespace Drafting.Source

open Text

variable {α : Type}

section

variable {σ : Type} {advance : Pass α → Line → Pass α} {recognise : Line → Option σ}
  {draw : Draft α → σ → Draft α} {lines : List Line}

/-- Each step either draws what is recognised in the line or rejects the line. -/
def StepsBy (advance : Pass α → Line → Pass α) (recognise : Line → Option σ)
    (draw : Draft α → σ → Draft α) : Prop :=
  ∀ p line, advance p line =
    match recognise line with
    | some s => { p with draft := draw p.draft s }
    | none => p.skip line

theorem StepsBy.foldl_advance (h : StepsBy advance recognise draw) (p : Pass α)
    (lines : List Line) :
    lines.foldl advance p =
      ⟨(readLines recognise lines).1.foldl draw p.draft,
        p.skipped ++ (readLines recognise lines).2⟩ := by
  induction lines generalizing p with
  | nil => simp [readLines]
  | cons line lines ih =>
      rw [List.foldl_cons, ih, h p line]
      cases hr : recognise line with
      | some s => simp [readLines, hr]
      | none => simp [readLines, hr, Pass.skip]

theorem StepsBy.skipped_run (h : StepsBy advance recognise draw) (ids : IdSupply)
    (lines : List Line) :
    (lines.foldl advance (.start ids)).skipped = (readLines recognise lines).2 := by
  rw [h.foldl_advance, Pass.start, List.nil_append]

/-- When no two lines have one number, those that are reported are those that say nothing. -/
theorem mem_skipped_iff (hn : (lines.map Line.number).Nodup) {line : Line} (hm : line ∈ lines) :
    line.number ∈ (readLines recognise lines).2 ↔ recognise line = none := by
  rw [readLines, List.mem_map]
  constructor
  · rintro ⟨other, ho, he⟩
    obtain ⟨hother, hnone⟩ := List.mem_filter.1 ho
    obtain rfl := List.inj_on_of_nodup_map hn hother hm he
    exact Option.isNone_iff_eq_none.1 hnone
  · exact fun hnone => ⟨line, List.mem_filter.2 ⟨hm, by simp [hnone]⟩, rfl⟩

theorem StepsBy.advance_eq_skip (h : StepsBy advance recognise draw)
    (hn : (lines.map Line.number).Nodup) {line : Line} (hm : line ∈ lines) {ids : IdSupply}
    (hs : line.number ∈ (lines.foldl advance (.start ids)).skipped) (p : Pass α) :
    advance p line = p.skip line := by
  rw [h.skipped_run, mem_skipped_iff hn hm] at hs
  rw [h p line, hs]

/-- The lines that are rejected might as well not be there. -/
theorem StepsBy.foldl_advance_kept (h : StepsBy advance recognise draw)
    (hn : (lines.map Line.number).Nodup) (ids : IdSupply) :
    let last := lines.foldl advance (.start ids)
    (lines.filter fun line => line.number ∉ last.skipped).foldl advance (.start ids) =
      ⟨last.draft, []⟩ := by
  -- Which lines are kept is known from the numbers alone only because no two lines share one.
  have hkept : (lines.filter fun line => line.number ∉ (readLines recognise lines).2) =
      lines.filter fun line => (recognise line).isSome := by
    refine List.filter_congr fun line hm => ?_
    simp only [mem_skipped_iff hn hm, ← Option.isNone_iff_eq_none]
    cases recognise line <;> rfl
  have hread : readLines recognise (lines.filter fun line => (recognise line).isSome) =
      ((readLines recognise lines).1, []) := by
    rw [readLines, Prod.mk.injEq, List.filterMap_filter, List.filter_filter]
    constructor
    · exact List.filterMap_congr fun line _ => by cases recognise line <;> rfl
    · simp [List.filter_eq_nil_iff]
  dsimp only
  rw [h.skipped_run, hkept, h.foldl_advance, h.foldl_advance, hread]
  rfl

end

variable [Scalar α]

namespace Flow

def draw (kind : DiagramKind) (shape : String → NodeKind) (d : Draft α) : Statement → Draft α
  | .title t => d.titled t
  | .chain names label =>
      let (d, ids) := drawNames kind shape d names
      drawHops label d ids

theorem stepsBy (kind : DiagramKind) (shape : String → NodeKind) :
    StepsBy (α := α) (advance kind shape) statement? (draw kind shape) := by
  intro p line
  rw [advance, statement?]
  cases title? line.text with
  | some t => rfl
  | none =>
      dsimp only
      generalize (splitArrows (cut ':' line.text).1).map unquote = names
      generalize ((cut ':' line.text).2.bind fun t => nonempty? (trim t)) = label
      by_cases hempty : names.any List.isEmpty
      · simp [hempty]
      · by_cases hone : names.length = 1
        · obtain ⟨name, rfl⟩ := List.length_eq_one_iff.1 hone
          cases label with
          | some t => simp
          | none =>
              have hname : ([name].any List.isEmpty) = false := by simpa using hempty
              rw [if_neg hempty, if_pos hone, hname]
              rfl
        · have hsome : (names.any List.isEmpty || (names.length == 1 && label.isSome)) = false := by
            simp [hempty, hone]
          rw [if_neg hempty, if_neg hone, hsome]
          rfl

end Flow

namespace Conversation

def draw (d : Draft α) : Statement → Draft α
  | .message source target kind text => drawMessage d source target kind text
  | .declare name => (drawActor d name).1
  | .title t => d.titled t

theorem stepsBy : StepsBy (α := α) advance statement? draw := by
  intro p line
  rw [advance, statement?]
  dsimp only
  cases ends? (cut ':' line.text).1 with
  | some ends =>
      obtain ⟨source, kind, target⟩ := ends
      dsimp only
      cases hs : unquote source with
      | nil => rfl
      | cons =>
          cases ht : unquote target with
          | nil => rfl
          | cons => rfl
  | none =>
      cases declared? line.text with
      | some name => rfl
      | none => cases title? line.text <;> rfl

end Conversation

namespace UseCase

theorem stepsBy : StepsBy (α := α) advance statement? draw := by
  intro p line
  rw [advance, statement?]
  cases relation? line.text with
  | some s => rfl
  | none =>
      dsimp only
      cases linkParts? line.text with
      | some parts =>
          obtain ⟨actor, name, label⟩ := parts
          dsimp only
          cases unquote actor <;> rfl
      | none =>
          cases declaredActor? line.text with
          | some s => rfl
          | none =>
              cases declaredCase? line.text with
              | some s => rfl
              | none => cases title? line.text <;> rfl

end UseCase

namespace Outline

theorem stepsBy : StepsBy (α := α) advance entry? draw := by
  intro p line
  rw [advance, entry?]
  cases unquote (dropBullet line.text) <;> rfl

end Outline

theorem Language.exists_stepsBy (l : Language) :
    ∃ (σ : Type) (recognise : Line → Option σ) (draw : Draft α → σ → Draft α),
      StepsBy l.advance recognise draw := by
  cases l with
  | flow => exact ⟨_, _, _, Flow.stepsBy .flow Flow.shapeOf⟩
  | generic => exact ⟨_, _, _, Flow.stepsBy .generic fun _ => .generic⟩
  | conversation => exact ⟨_, _, _, Conversation.stepsBy⟩
  | useCase => exact ⟨_, _, _, UseCase.stepsBy⟩
  | outline => exact ⟨_, _, _, Outline.stepsBy⟩

end Drafting.Source
