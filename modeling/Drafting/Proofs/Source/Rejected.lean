import Drafting.Number.Binary32
import Drafting.Proofs.Source.LineByLine

namespace Drafting.Source

/-- Reading line by line comes to what reading comes to. A line that is reported as skipped leaves
all that has been drawn as it is, so reading only the others draws the same. -/
theorem run_skipped_unchanged (α : Type) [Scalar α] (l : Language) (text : List Char)
    (ids : IdSupply) :
    let lines := sourceLines (marks l.kind) text
    let start : Pass α := .start ids
    let last := l.run start lines
    parseFrom l.kind text ids = (finish lines (l.diagram last), last.draft.ids) ∧
      (∀ front line back, lines = front ++ line :: back → line.number ∈ last.skipped →
        l.advance (l.run start front) line = (l.run start front).skip line) ∧
      l.run start (lines.filter fun line => line.number ∉ last.skipped) = ⟨last.draft, []⟩ := by
  intro lines start last
  obtain ⟨σ, recognise, draw, h⟩ := l.exists_stepsBy (α := α)
  have hn := nodup_numbers_sourceLines (marks l.kind) text
  refine ⟨by cases l <;> rfl, ?_, h.foldl_advance_kept hn ids⟩
  intro front line back hsplit hs
  have hm : line ∈ lines := by
    rw [hsplit]
    exact List.mem_append_right front List.mem_cons_self
  exact h.advance_eq_skip hn hm hs _

def skippedLines : List Char :=
  "A -> B\n\"\" -> C\nparticipant \"\"\nA ->\nB --> A: ok".toList

theorem skippedLines_run_unchanged :
    let lines := sourceLines comments skippedLines
    let last := Language.conversation.run (.start .fresh : Pass Float32) lines
    let first : Line := ⟨1, 0, "A -> B".toList⟩
    let second : Line := ⟨2, 0, "\"\" -> C".toList⟩
    lines = [first] ++ second :: lines.drop 2 ∧ second.number ∈ last.skipped ∧
      last.skipped = [2, 3, 4] ∧
      Language.conversation.advance (Language.conversation.run (.start .fresh) [first]) second =
        (Language.conversation.run (.start .fresh : Pass Float32) [first]).skip second ∧
      Language.conversation.run (.start .fresh)
        (lines.filter fun line => line.number ∉ last.skipped) = ⟨last.draft, []⟩ := by
  obtain ⟨-, hstep, hkept⟩ := run_skipped_unchanged Float32 .conversation skippedLines .fresh
  have hsplit : sourceLines comments skippedLines =
      [⟨1, 0, "A -> B".toList⟩] ++ ⟨2, 0, "\"\" -> C".toList⟩ ::
        (sourceLines comments skippedLines).drop 2 := rfl
  have hskipped : (Language.conversation.run (.start .fresh : Pass Float32)
      (sourceLines comments skippedLines)).skipped = [2, 3, 4] := by decide +kernel
  exact ⟨hsplit, hskipped ▸ by decide, hskipped, hstep _ _ _ hsplit (hskipped ▸ by decide), hkept⟩

end Drafting.Source
