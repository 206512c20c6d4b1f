import Mathlib.Data.List.Basic
import Mathlib.Data.List.TakeWhile
import Drafting.Proofs.Text.Pieces
import Drafting.Proofs.Source.Reading

namespace Drafting

namespace Text

theorem length_filter_pieces_le (c : Char) (s : List Char) :
    ((pieces c s).filter (!·.isEmpty)).length ≤ s.length := by
  induction s with
  | nil => simp [pieces]
  | cons d s ih =>
      rw [pieces]
      by_cases hd : d = c
      · simpa [hd] using Nat.le_succ_of_le ih
      · cases hp : pieces c s with
        | nil => simp [hd]
        | cons p ps =>
            rw [hp] at ih
            cases p with
            | nil => simp_all
            | cons e p =>
                simp_all
                omega

theorem exists_of_trim_ne_nil {s : List Char} (h : trim s ≠ []) : ∃ c ∈ s, isBlank c = false := by
  by_contra hn
  refine h ?_
  have hblank : skipBlanks s = [] :=
    List.dropWhile_eq_nil_iff.2 (by simpa using hn)
  rw [trim, hblank]
  rfl

end Text

namespace Source

theorem length_contentLines_le (marks : List (List Char)) (input : List Char) :
    (contentLines marks input).length ≤ input.length := by
  let lines := (Text.pieces '\n' input).zipIdx 1
  have hraw : contentLines marks input =
      (lines.filter fun p => !p.1.isEmpty).filterMap fun p => Line.ofRaw? marks p.2 p.1 := by
    rw [List.filterMap_filter]
    refine List.filterMap_congr fun p _ => ?_
    rcases p with ⟨_ | ⟨c, raw⟩, number⟩ <;> rfl
  have hlines : lines.map Prod.fst = Text.pieces '\n' input := List.zipIdx_map_fst 1 _
  calc (contentLines marks input).length
      ≤ (lines.filter fun p => !p.1.isEmpty).length := hraw ▸ List.length_filterMap_le _ _
    _ = ((lines.map Prod.fst).filter (!·.isEmpty)).length := by
        rw [List.filter_map, List.length_map]
        rfl
    _ ≤ input.length := hlines ▸ Text.length_filter_pieces_le '\n' input

theorem length_sourceLines_le (marks : List (List Char)) (input : List Char) :
    (sourceLines marks input).length ≤ input.length := by
  refine Nat.le_trans ?_ (length_contentLines_le marks input)
  rw [sourceLines]
  cases contentLines marks input with
  | nil => simp [dropHeader]
  | cons first rest =>
      rw [dropHeader]
      split <;> simp

theorem sourceLines_sublist (marks : List (List Char)) (input : List Char) :
    (sourceLines marks input).Sublist (contentLines marks input) := by
  rw [sourceLines]
  cases contentLines marks input with
  | nil => exact .slnil
  | cons first rest =>
      rw [dropHeader]
      split
      · exact List.sublist_cons_self first rest
      · exact List.Sublist.refl _

/-- A line with a character that no header has in it is no header. -/
theorem header?_eq_none_of_mem {c : Char} {s : List Char} (hm : c ∈ s)
    (hb : Text.isBlank c = false) (hl : c.toLower = c) (hw : ∀ w ∈ headerWords, c ∉ w.1)
    (hd : ∀ d ∈ directions, c ∉ d) : header? s = none := by
  have hlower {t : List Char} (h : c ∈ t) : c ∈ t.map Char.toLower := List.mem_map.2 ⟨c, h, hl⟩
  have hsplit := List.takeWhile_append_dropWhile (p := fun c => !Text.isBlank c) (l := s)
  rw [header?]
  rcases List.mem_append.1 (hsplit.symm ▸ hm) with hm | hm
  · have hnone :
        headerWords.lookup ((s.takeWhile fun c => !Text.isBlank c).map Char.toLower) = none :=
      List.lookup_eq_none_iff.2 fun w hword => bne_iff_ne.2 fun he => hw w hword (he ▸ hlower hm)
    rw [hnone, ite_self]
  · have hrest := hlower (Text.mem_skipBlanks hm hb)
    refine if_neg ?_
    simp only [Bool.or_eq_true, List.isEmpty_iff, List.contains_iff_mem, not_or]
    exact ⟨List.ne_nil_of_mem hrest, fun hmem => hd _ hmem hrest⟩

theorem sourceLines_of_no_header {marks : List (List Char)} {text : List Char} {first : Line}
    {lines : List Line}
    (hl : contentLines marks text = first :: lines) (hh : header? first.text = none) :
    sourceLines marks text = first :: lines := by
  rw [sourceLines, hl, dropHeader, hh]
  rfl

/-- A change to lines that makes no header of the first and leaves it one if it is. -/
theorem dropHeader_map {f : Line → Line} {lines : List Line}
    (h : ∀ first ∈ lines.head?, (header? (f first).text).isSome = (header? first.text).isSome) :
    dropHeader (lines.map f) = (dropHeader lines).map f := by
  cases lines with
  | nil => rfl
  | cons first rest =>
      rw [List.map_cons, dropHeader, dropHeader, h first rfl, apply_ite (List.map f)]
      rfl

theorem map_text_contentLines (marks : List (List Char)) (input : List Char) :
    (contentLines marks input).map Line.text =
      ((Text.pieces '\n' input).map Text.trim).filter fun t =>
        !(t.isEmpty || marks.any (·.isPrefixOf t)) := by
  have hline (p : List Char × Nat) : (Line.ofRaw? marks p.2 p.1).map Line.text =
      if !((Text.trim p.1).isEmpty || marks.any (·.isPrefixOf (Text.trim p.1))) then
        some (Text.trim p.1)
      else none := by
    rw [Line.ofRaw?]
    cases (Text.trim p.1).isEmpty || marks.any (·.isPrefixOf (Text.trim p.1)) <;> rfl
  rw [contentLines, List.map_filterMap, ← List.filterMap_eq_filter]
  conv =>
    rhs
    rw [← List.zipIdx_map_fst 1 (Text.pieces '\n' input), List.map_map, List.filterMap_map]
  refine List.filterMap_congr fun p _ => ?_
  rw [hline]
  simp [Option.guard]

/-- A text that makes a line as it stands. -/
structure IsContent (marks : List (List Char)) (text : List Char) : Prop where
  trimmed : Text.IsTrimmed text
  ne_nil : text ≠ []
  uncommented : ∀ mark ∈ marks, ¬ mark <+: text

theorem isContent_trim_iff {marks : List (List Char)} {raw : List Char} :
    IsContent marks (Text.trim raw) ↔
      ((Text.trim raw).isEmpty || marks.any (·.isPrefixOf (Text.trim raw))) = false := by
  rw [Bool.or_eq_false_iff, List.any_eq_false]
  constructor
  · exact fun h => ⟨List.isEmpty_eq_false_iff.2 h.ne_nil, fun mark hm hp =>
      h.uncommented mark hm (List.isPrefixOf_iff_prefix.1 hp)⟩
  · exact fun ⟨hne, hmarks⟩ => ⟨Text.isTrimmed_trim raw, List.isEmpty_eq_false_iff.1 hne,
      fun mark hm hp => hmarks mark hm (List.isPrefixOf_iff_prefix.2 hp)⟩

theorem Line.ofRaw?_eq_some_iff {marks : List (List Char)} {number : Nat} {raw : List Char}
    {l : Line} : Line.ofRaw? marks number raw = some l ↔
      IsContent marks (Text.trim raw) ∧ l = ⟨number, indentation raw, Text.trim raw⟩ := by
  rw [Line.ofRaw?, isContent_trim_iff]
  cases (Text.trim raw).isEmpty || marks.any (·.isPrefixOf (Text.trim raw)) with
  | true => simp
  | false => simp [eq_comm]

theorem isContent_text {marks : List (List Char)} {input : List Char} {l : Line}
    (h : l ∈ sourceLines marks input) : IsContent marks l.text ∧ '\n' ∉ l.text := by
  have hm := (sourceLines_sublist marks input).subset h
  obtain ⟨⟨raw, number⟩, hp, hl⟩ := List.mem_filterMap.1 hm
  obtain ⟨hc, rfl⟩ := Line.ofRaw?_eq_some_iff.1 hl
  exact ⟨hc, fun h => Text.not_mem_of_mem_pieces (List.fst_mem_of_mem_zipIdx hp)
    ((Text.trim_sublist raw).subset h)⟩

/-- Lines with content are, trimmed, the lines of the text that they make. -/
theorem map_text_sourceLines_of_lines {marks raws : List (List Char)} (hne : raws ≠ [])
    (h : ∀ raw ∈ raws, IsContent marks (Text.trim raw) ∧ '\n' ∉ raw)
    (hh : ∀ raw ∈ raws.head?, header? (Text.trim raw) = none) :
    (sourceLines marks (['\n'].intercalate raws)).map Line.text = raws.map Text.trim := by
  have hcounts : ∀ text ∈ raws.map Text.trim,
      (!(text.isEmpty || marks.any (·.isPrefixOf text))) = true := by
    refine List.forall_mem_map.2 fun raw hm => ?_
    rw [isContent_trim_iff.1 (h raw hm).1]
    rfl
  have htexts : (contentLines marks (['\n'].intercalate raws)).map Line.text =
      raws.map Text.trim := by
    rw [map_text_contentLines, Text.pieces_intercalate hne fun raw hm => (h raw hm).2]
    exact List.filter_eq_self.2 hcounts
  obtain ⟨first, rest, rfl⟩ := List.exists_cons_of_ne_nil hne
  rw [List.map_cons] at htexts ⊢
  obtain ⟨line, lines, hl, hline, hlines⟩ := List.map_eq_cons_iff.1 htexts
  rw [sourceLines_of_no_header hl (hline ▸ hh first rfl), List.map_cons, hline, hlines]

/-- Lines that make lines as they stand are the lines of the text that they make. -/
theorem map_text_sourceLines_intercalate {marks raws : List (List Char)} (hne : raws ≠ [])
    (h : ∀ raw ∈ raws, IsContent marks raw ∧ '\n' ∉ raw)
    (hh : ∀ raw ∈ raws.head?, header? raw = none) :
    (sourceLines marks (['\n'].intercalate raws)).map Line.text = raws := by
  have htrim : ∀ raw ∈ raws, Text.trim raw = raw := fun raw hm => (h raw hm).1.trimmed.trim_eq
  rw [map_text_sourceLines_of_lines hne, List.map_congr_left htrim, List.map_id']
  · intro raw hm
    rw [htrim raw hm]
    exact h raw hm
  · intro raw hm
    rw [htrim raw (List.mem_of_mem_head? hm)]
    exact hh raw hm

/-- Lines that are each recognised as what they were written from. -/
theorem readLines_of_written {σ β : Type} {recognise : Line → Option σ} {said : β → σ}
    {text : β → List Char} {written : List β} {lines : List Line}
    (h : lines.map Line.text = written.map text)
    (hs : ∀ b ∈ written, ∀ line : Line, line.text = text b → recognise line = some (said b)) :
    readLines recognise lines = (written.map said, []) := by
  induction written generalizing lines with
  | nil =>
      obtain rfl := List.map_eq_nil_iff.1 h
      rfl
  | cons b written ih =>
      obtain ⟨hb, hwritten⟩ := List.forall_mem_cons.1 hs
      obtain ⟨line, lines, rfl, hline, hlines⟩ := List.map_eq_cons_iff.1 h
      have hsaid := hb line hline
      have hrest := ih hlines hwritten
      rw [readLines, Prod.mk.injEq] at hrest ⊢
      rw [List.filterMap_cons_some hsaid, hrest.1, List.filter_cons_of_neg (by simp [hsaid]),
        hrest.2]
      exact ⟨rfl, rfl⟩

theorem Line.number_eq {marks : List (List Char)} {number : Nat} {raw : List Char} {l : Line}
    (h : Line.ofRaw? marks number raw = some l) : l.number = number := by
  obtain ⟨-, rfl⟩ := Line.ofRaw?_eq_some_iff.1 h
  rfl

theorem pairwise_number_contentLines (marks : List (List Char)) (input : List Char) :
    ((contentLines marks input).map Line.number).Pairwise (· < ·) := by
  have hnumbers : ((Text.pieces '\n' input).zipIdx 1).Pairwise fun p q => p.2 < q.2 := by
    rw [← List.pairwise_map, List.zipIdx_map_snd]
    exact List.pairwise_lt_range'
  rw [List.pairwise_map, contentLines, List.pairwise_filterMap]
  refine hnumbers.imp fun hlt l hl m hm => ?_
  rwa [Line.number_eq hl, Line.number_eq hm]

theorem nodup_numbers_sourceLines (marks : List (List Char)) (input : List Char) :
    ((sourceLines marks input).map Line.number).Nodup :=
  ((pairwise_number_contentLines marks input).sublist
    ((sourceLines_sublist marks input).map Line.number)).imp Nat.ne_of_lt

def HasContent (marks : List (List Char)) (input : List Char) (number : Nat) : Prop :=
  ∃ i raw, number = i + 1 ∧ (Text.pieces '\n' input)[i]? = some raw ∧
    (∃ c ∈ raw, Text.isBlank c = false) ∧ ∀ mark ∈ marks, ¬ mark <+: Text.trim raw

theorem hasContent_of_mem_contentLines {marks : List (List Char)} {input : List Char} {l : Line}
    (h : l ∈ contentLines marks input) : HasContent marks input l.number := by
  obtain ⟨⟨raw, number⟩, hp, hl⟩ := List.mem_filterMap.1 h
  obtain ⟨hle, hraw⟩ := List.mk_mem_zipIdx_iff_le_and_getElem?_sub.1 hp
  obtain ⟨hc, rfl⟩ := Line.ofRaw?_eq_some_iff.1 hl
  exact ⟨number - 1, raw, (Nat.sub_add_cancel hle).symm, hraw,
    Text.exists_of_trim_ne_nil hc.ne_nil, hc.uncommented⟩

theorem skipped_readLines_sublist {σ : Type} (recognise : Line → Option σ) (lines : List Line) :
    (readLines recognise lines).2.Sublist (lines.map Line.number) :=
  List.filter_sublist.map _

end Source

end Drafting
