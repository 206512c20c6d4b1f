import Drafting.Number.Binary32
import Drafting.Proofs.Source.Mirror

namespace Drafting

namespace Source

open Text

def insertLine (i : Nat) (line text : List Char) : List Char :=
  ['\n'].intercalate ((pieces '\n' text).take i ++ line :: (pieces '\n' text).drop i)

def pushBack (i number : Nat) : Nat := if i < number then number + 1 else number

def IsIdle (kind : DiagramKind) (line : List Char) : Prop :=
  (∀ c ∈ line, isBlank c) ∨ "%%".toList <+: trim line ∨ "//".toList <+: trim line ∨
    kind = .mindmap ∧ "#".toList <+: trim line

def Line.renumber (f : Nat → Nat) (l : Line) : Line := { l with number := f l.number }

theorem pieces_insertLine {i : Nat} {line text : List Char} (h : '\n' ∉ line) :
    pieces '\n' (insertLine i line text) =
      (pieces '\n' text).take i ++ line :: (pieces '\n' text).drop i := by
  refine pieces_intercalate (by simp) fun l hl => ?_
  rcases List.mem_append.1 hl with hl | hl
  · exact not_mem_of_mem_pieces (List.mem_of_mem_take hl)
  · rcases List.mem_cons.1 hl with rfl | hl
    · exact h
    · exact not_mem_of_mem_pieces (List.mem_of_mem_drop hl)

theorem IsIdle.ofRaw? {kind : DiagramKind} {line : List Char} (h : IsIdle kind line)
    (number : Nat) : Line.ofRaw? (marks kind) number line = none := by
  have hmark (mark : List Char) (hm : mark ∈ marks kind) (hp : mark <+: trim line) :
      Line.ofRaw? (marks kind) number line = none := by
    rw [Line.ofRaw?, if_pos]
    rw [Bool.or_eq_true, List.any_eq_true]
    exact .inr ⟨mark, hm, List.isPrefixOf_iff_prefix.2 hp⟩
  rcases h with h | h | h | ⟨rfl, h⟩
  · simp [Line.ofRaw?, trim_eq_nil_iff.2 h]
  · exact hmark _ (by cases kind <;> decide) h
  · exact hmark _ (by cases kind <;> decide) h
  · exact hmark _ (by decide) h

theorem ofRaw?_renumber (marks : List (List Char)) (f : Nat → Nat) (number : Nat)
    (raw : List Char) :
    Line.ofRaw? marks (f number) raw = (Line.ofRaw? marks number raw).map (Line.renumber f) := by
  rw [Line.ofRaw?, Line.ofRaw?]
  split <;> rfl

theorem numbered_renumber {marks : List (List Char)} {f : Nat → Nat} {raws : List (List Char)}
    {m n : Nat} (h : ∀ k < raws.length, f (m + k) = n + k) :
    (raws.zipIdx n).filterMap (fun p => Line.ofRaw? marks p.2 p.1) =
      ((raws.zipIdx m).filterMap fun p => Line.ofRaw? marks p.2 p.1).map (Line.renumber f) := by
  induction raws generalizing m n with
  | nil => rfl
  | cons raw raws ih =>
      have hfirst : f m = n := h 0 (by simp)
      have hrest := ih (m := m + 1) (n := n + 1) fun k hk => by
        have hnext := h (k + 1) (by simpa using hk)
        rwa [Nat.add_right_comm, Nat.add_assoc, Nat.add_right_comm n]
      rw [List.zipIdx_cons, List.zipIdx_cons, List.filterMap_cons, List.filterMap_cons, hrest,
        ← hfirst, ofRaw?_renumber]
      cases Line.ofRaw? marks m raw <;> rfl

theorem contentLines_insertLine {kind : DiagramKind} {line : List Char} (h : '\n' ∉ line)
    (hi : IsIdle kind line) (i : Nat) (text : List Char) :
    contentLines (marks kind) (insertLine i line text) =
      (contentLines (marks kind) text).map (Line.renumber (pushBack i)) := by
  let lines := pieces '\n' text
  have hsplit : lines.zipIdx 1 =
      (lines.take i).zipIdx 1 ++ (lines.drop i).zipIdx (1 + (lines.take i).length) := by
    rw [← List.zipIdx_append, List.take_append_drop]
  have hfront : ∀ k < (lines.take i).length, pushBack i (1 + k) = 1 + k := by
    intro k hk
    rw [List.length_take] at hk
    exact if_neg (by omega)
  have hback : ∀ k < (lines.drop i).length, pushBack i (1 + (lines.take i).length + k) =
      1 + (lines.take i).length + 1 + k := by
    intro k hk
    rw [List.length_drop] at hk
    rw [List.length_take, pushBack, if_pos (by omega)]
    omega
  rw [contentLines, contentLines, pieces_insertLine h, hsplit, List.zipIdx_append, List.zipIdx_cons,
    List.filterMap_append, List.filterMap_append, List.filterMap_cons, hi.ofRaw?, List.map_append]
  exact congrArg₂ (· ++ ·) (numbered_renumber hfront) (numbered_renumber hback)

theorem sourceLines_insertLine {kind : DiagramKind} {line : List Char} (h : '\n' ∉ line)
    (hi : IsIdle kind line) (i : Nat) (text : List Char) :
    sourceLines (marks kind) (insertLine i line text) =
      (sourceLines (marks kind) text).map (Line.renumber (pushBack i)) := by
  rw [sourceLines, contentLines_insertLine h hi]
  exact dropHeader_map fun _ _ => rfl

theorem readLines_renumber {σ : Type} {recognise : Line → Option σ} {f : Nat → Nat}
    (h : ∀ l, recognise (l.renumber f) = recognise l) (lines : List Line) :
    readLines recognise (lines.map (Line.renumber f)) =
      ((readLines recognise lines).1, (readLines recognise lines).2.map f) := by
  have hr : recognise ∘ Line.renumber f = recognise := funext h
  have hs : (fun l => (recognise l).isNone) ∘ Line.renumber f = fun l => (recognise l).isNone :=
    funext fun l => congrArg Option.isNone (h l)
  simp only [readLines, List.filterMap_map, List.filter_map, List.map_map, hr, hs]
  rfl

theorem readFrom_renumber (f : Nat → Nat) (mode : ClassText.Mode) (lines : List Line) :
    ClassText.readFrom mode (lines.map (Line.renumber f)) =
      ((ClassText.readFrom mode lines).1, (ClassText.readFrom mode lines).2.map f) := by
  induction lines generalizing mode with
  | nil => rfl
  | cons line lines ih =>
      rw [List.map_cons, ClassText.readFrom, ClassText.readFrom]
      simp only [ih, Line.renumber, apply_ite (List.map f), List.map_cons]

/-- A reader sees the numbers of lines only to report them. -/
theorem read_renumber (kind : DiagramKind) (f : Nat → Nat) (lines : List Line) :
    read kind (lines.map (Line.renumber f)) =
      { read kind lines with skipped := (read kind lines).skipped.map f } := by
  cases kind with
  | classes => simp only [read, readFrom_renumber]
  | sequence | flow | generic | useCase | mindmap =>
      simp only [read]
      rw [readLines_renumber fun _ => rfl]

end Source

def Diagram.renumber {α : Type} (f : Nat → Nat) (d : Diagram α) : Diagram α :=
  { d with skipped := d.skipped.map f }

namespace Source

/-- Reading a text with one more line that is blank or a comment gives the same error, or the same
diagram but for the numbers of the skipped lines behind it. -/
theorem parseWith_insertLine_idle {α : Type} [Scalar α] (kind : DiagramKind) (text : List Char)
    (ids : IdSupply) (i : Nat) (line : List Char) (h : '\n' ∉ line) (hi : IsIdle kind line) :
    parseWith (α := α) kind (insertLine i line text) ids =
      (parseWith kind text ids).map (Prod.map (Diagram.renumber (pushBack i)) id) := by
  rw [parseWith_eq_ite, parseWith_eq_ite, sourceLines_insertLine h hi, read_renumber]
  dsimp only
  rw [List.isEmpty_map]
  split
  · rfl
  split
  · rfl
  · rfl

def skippedMember : List Char := "class Door\n\x7b\n???\n\x7d".toList

/-- A comment between a class and its body. -/
theorem skippedMember_insertLine_idle :
    insertLine 1 "%% note".toList skippedMember = "class Door\n%% note\n\x7b\n???\n\x7d".toList ∧
      ∃ (d : Diagram Float32) (ids : IdSupply),
        parseWith .classes skippedMember .fresh = .ok (d, ids) ∧ d.skipped = [3] ∧
        parseWith .classes (insertLine 1 "%% note".toList skippedMember) .fresh =
          .ok (d.renumber (pushBack 1), ids) ∧
        (d.renumber (pushBack 1)).skipped = [4] := by
  have hi : IsIdle .classes "%% note".toList := .inr (.inl ⟨" note".toList, by decide +kernel⟩)
  refine ⟨by decide +kernel, _, _, rfl, rfl, ?_, rfl⟩
  have hline : '\n' ∉ "%% note".toList := by decide +kernel
  exact (parseWith_insertLine_idle .classes skippedMember .fresh 1 _ hline hi).trans rfl

end Source

end Drafting
