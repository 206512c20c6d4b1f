import Drafting.Proofs.Text.Scan

namespace Drafting.Text

variable {a b s t gap gap' : List Char} {c : Char}

theorem pieces_append_cons (c : Char) (a b : List Char) :
    pieces c (a ++ c :: b) = pieces c a ++ pieces c b := by
  simp only [pieces_eq_splitOn, List.splitOn_eq_splitOnP]
  exact List.splitOnP_append_cons a b (beq_self_eq_true c)

theorem pieces_of_not_mem (h : c ∉ s) : pieces c s = [s] := by
  rw [pieces_eq_splitOn, List.splitOn_eq_splitOnP]
  exact List.splitOnP_eq_singleton fun d hd => beq_eq_false_iff_ne.2 fun he => h (he ▸ hd)

theorem cut_eq_some_iff : cut c s = (a, some b) ↔ s = a ++ c :: b ∧ c ∉ a := by
  induction s generalizing a with
  | nil => simp [cut]
  | cons d s ih =>
      rw [cut]
      by_cases hd : d = c
      · cases a <;> simp_all
      · rw [if_neg hd]
        cases a with
        | nil => simp [hd]
        | cons e a =>
            have hrest : (cut c s).1 = a ∧ (cut c s).2 = some b ↔ s = a ++ c :: b ∧ c ∉ a := by
              rw [← ih, Prod.ext_iff]
            simp only [Prod.mk.injEq, List.cons.injEq, List.cons_append, List.mem_cons, not_or,
              and_assoc, hrest]
            refine and_congr_right fun he => and_congr_right fun _ => ?_
            rw [and_iff_right (he ▸ Ne.symm hd)]

theorem cut_of_not_mem (h : c ∉ s) : cut c s = (s, none) := by
  induction s with
  | nil => rfl
  | cons d s ih =>
      obtain ⟨hd, hs⟩ := List.ne_and_not_mem_of_not_mem_cons h
      rw [cut, if_neg (Ne.symm hd), ih hs]

theorem not_mem_fst_cut (c : Char) (s : List Char) : c ∉ (cut c s).1 := by
  rw [fst_cut]
  intro h
  simpa using List.mem_takeWhile_imp h

theorem fst_cut_sublist (c : Char) (s : List Char) : (cut c s).1.Sublist s := by
  rw [fst_cut]
  exact List.takeWhile_sublist _

theorem skipBlanks_sublist (s : List Char) : (skipBlanks s).Sublist s := List.dropWhile_sublist _

theorem sublist_of_mem_pieces (h : t ∈ pieces c s) : t.Sublist s := by
  induction s generalizing t with
  | nil => simp_all [pieces]
  | cons d s ih =>
      rw [pieces] at h
      split at h
      · rcases List.mem_cons.1 h with rfl | h
        · exact List.nil_sublist _
        · exact (ih h).cons d
      · cases hp : pieces c s with
        | nil => exact absurd hp (pieces_ne_nil c s)
        | cons q qs =>
            rw [hp] at h ih
            rcases List.mem_cons.1 h with rfl | h
            · exact (ih List.mem_cons_self).cons_cons d
            · exact (ih (List.mem_cons_of_mem _ h)).cons d

structure IsTrimmed (s : List Char) : Prop where
  head : ∀ c ∈ s.head?, isBlank c = false
  last : ∀ c ∈ s.getLast?, isBlank c = false

theorem trimEnd_append (h : Blanks gap) (s : List Char) : trimEnd (s ++ gap) = trimEnd s := by
  have hreverse : Blanks gap.reverse := fun c hc => h c (List.mem_reverse.1 hc)
  rw [trimEnd, List.reverse_append, List.dropWhile_append_of_pos hreverse, trimEnd]

theorem trim_append_blanks (h : Blanks gap) (s : List Char) : trim (s ++ gap) = trim s := by
  rw [trim, skipBlanks, List.dropWhile_append, trim, skipBlanks]
  split
  next hs => rw [List.isEmpty_iff.1 hs, List.dropWhile_eq_nil_iff.2 h]
  next => exact trimEnd_append h _

theorem trimEnd_of_last (h : ∀ c ∈ s.getLast?, isBlank c = false) : trimEnd s = s := by
  have hstop := skipBlanks_of_head (s := s.reverse) (by simpa using h)
  rw [trimEnd, show s.reverse.dropWhile isBlank = s.reverse from hstop, List.reverse_reverse]

theorem IsTrimmed.trim_eq (h : IsTrimmed s) : trim s = s := by
  rw [trim, skipBlanks_of_head h.head, trimEnd_of_last h.last]

theorem exists_trimEnd_append (s : List Char) : ∃ gap, Blanks gap ∧ s = trimEnd s ++ gap := by
  obtain ⟨gap, hg, he⟩ := exists_append_skipBlanks s.reverse
  refine ⟨gap.reverse, fun c hc => hg c (List.mem_reverse.1 hc), ?_⟩
  rw [trimEnd, ← List.reverse_append]
  exact List.reverse_eq_iff.1 he

theorem exists_append_trim (s : List Char) :
    ∃ gap gap', Blanks gap ∧ Blanks gap' ∧ s = gap ++ (trim s ++ gap') := by
  obtain ⟨gap, hg, he⟩ := exists_append_skipBlanks s
  obtain ⟨gap', hg', he'⟩ := exists_trimEnd_append (skipBlanks s)
  exact ⟨gap, gap', hg, hg', by rwa [trim, ← he']⟩

theorem trim_sublist (s : List Char) : (trim s).Sublist s := by
  obtain ⟨gap, gap', -, -, he⟩ := exists_append_trim s
  conv => rhs; rw [he]
  exact (List.sublist_append_left _ _).trans (List.sublist_append_right _ _)

/-- Nothing is trimmed away in front of a character that is no blank. -/
theorem exists_trim_append_cons (ha : ∀ d ∈ a.head?, isBlank d = false) (hc : isBlank c = false)
    (s : List Char) : ∃ t, trim (a ++ c :: s) = a ++ c :: t := by
  have hskip : skipBlanks (a ++ c :: s) = a ++ c :: s := by
    refine skipBlanks_of_head ?_
    cases a with
    | nil => simpa using hc
    | cons d a => simpa using ha
  obtain ⟨gap, hg, he⟩ := exists_trimEnd_append (a ++ c :: s)
  have hgap : c ∉ gap := fun hm => by simp [hg c hm] at hc
  rw [trim, hskip]
  rcases List.append_eq_append_iff.1 he with ⟨t, ht, hs⟩ | ⟨t, -, hs⟩
  · cases t with
    | nil =>
        rw [List.nil_append] at hs
        exact absurd (hs ▸ List.mem_cons_self) hgap
    | cons d t =>
        obtain ⟨rfl, -⟩ := List.cons.inj hs
        exact ⟨t, ht⟩
  · exact absurd (hs ▸ List.mem_append_right t List.mem_cons_self) hgap

/-- Trimming leaves a text that begins with no blank as it is, but for blanks at its end. -/
theorem exists_append_eq_of_head (h : ∀ d ∈ s.head?, isBlank d = false) :
    ∃ gap, Blanks gap ∧ s = trim s ++ gap := by
  rw [trim, skipBlanks_of_head h]
  exact exists_trimEnd_append s

theorem exists_trim_append_cons_eq (ha : ∀ d ∈ a.head?, isBlank d = false)
    (hc : isBlank c = false) (s : List Char) :
    ∃ t, trim (a ++ c :: s) = a ++ c :: t ∧ trim t = trim s := by
  obtain ⟨t, ht⟩ := exists_trim_append_cons ha hc s
  have hhead : ∀ d ∈ (a ++ c :: s).head?, isBlank d = false := by
    cases a with
    | nil => simpa using hc
    | cons d a => simpa using ha
  obtain ⟨gap, hg, he⟩ := exists_append_eq_of_head hhead
  rw [ht, List.append_assoc, List.cons_append, List.append_cancel_left_eq, List.cons.injEq] at he
  refine ⟨t, ht, ?_⟩
  rw [he.2, trim_append_blanks hg]

theorem isTrimmed_trim (s : List Char) : IsTrimmed (trim s) := by
  constructor
  case head =>
    intro c hc
    obtain ⟨gap, -, he⟩ := exists_trimEnd_append (skipBlanks s)
    refine not_blank_of_head?_skipBlanks s c ?_
    rw [he, List.head?_append, show trimEnd (skipBlanks s) = trim s from rfl, Option.mem_def.1 hc]
    rfl
  case last =>
    intro c hc
    rw [trim, trimEnd, List.getLast?_reverse] at hc
    exact not_of_head?_dropWhile isBlank _ c hc

theorem isTrimmed_iff : IsTrimmed s ↔ trim s = s :=
  ⟨IsTrimmed.trim_eq, fun h => h ▸ isTrimmed_trim s⟩

theorem IsTrimmed.append (ha : ∀ c ∈ a.head?, isBlank c = false) (hs : IsTrimmed s)
    (hne : s ≠ []) (hna : a ≠ []) : IsTrimmed (a ++ s) := by
  constructor
  case head =>
    rw [List.head?_append_of_ne_nil _ hna]
    exact ha
  case last =>
    rw [List.getLast?_append_of_ne_nil _ hne]
    exact hs.last

def items (c : Char) (s : List Char) : List (List Char) :=
  ((pieces c s).map trim).filter fun t => !t.isEmpty

theorem items_append_cons (c : Char) (a b : List Char) :
    items c (a ++ c :: b) = items c a ++ items c b := by
  rw [items, pieces_append_cons, List.map_append, List.filter_append, items, items]

theorem items_of_not_mem (h : c ∉ s) : items c s = [trim s].filter fun t => !t.isEmpty := by
  rw [items, pieces_of_not_mem h, List.map_singleton]

theorem items_of_isTrimmed (h : c ∉ s) (ht : IsTrimmed s) (hne : s ≠ []) : items c s = [s] := by
  rw [items_of_not_mem h, ht.trim_eq, List.filter_eq_self.2]
  simpa using hne

theorem Blanks.not_mem (hg : Blanks gap) (hc : isBlank c = false) : c ∉ gap := by
  intro h
  simp [hg c h] at hc

theorem items_blanks_append (hc : isBlank c = false) (hg : Blanks gap) (s : List Char) :
    items c (gap ++ s) = items c s := by
  by_cases h : c ∈ s
  · obtain ⟨a, b, rfl, ha⟩ := List.eq_append_cons_of_mem h
    have hga : c ∉ gap ++ a := by simp [hg.not_mem hc, ha]
    rw [← List.append_assoc, items_append_cons, items_append_cons, items_of_not_mem hga,
      items_of_not_mem ha, trim_append hg]
  · rw [items_of_not_mem (by simp [hg.not_mem hc, h]), items_of_not_mem h, trim_append hg]

theorem items_append_blanks (hc : isBlank c = false) (hg : Blanks gap) (s : List Char) :
    items c (s ++ gap) = items c s := by
  by_cases h : c ∈ s
  · obtain ⟨b, a, he, hb⟩ := List.eq_append_cons_of_mem (List.mem_reverse.2 h)
    obtain rfl : s = a.reverse ++ c :: b.reverse := by
      rw [← List.reverse_reverse s, he]
      simp
    have hb : c ∉ b.reverse := by simpa using hb
    have hbg : c ∉ b.reverse ++ gap := by simp [hg.not_mem hc, hb]
    rw [List.append_assoc, List.cons_append, items_append_cons, items_append_cons,
      items_of_not_mem hbg, items_of_not_mem hb, trim_append_blanks hg]
  · rw [items_of_not_mem (by simp [hg.not_mem hc, h]), items_of_not_mem h, trim_append_blanks hg]

theorem items_trim (hc : isBlank c = false) (s : List Char) : items c (trim s) = items c s := by
  obtain ⟨gap, gap', hg, hg', he⟩ := exists_append_trim s
  conv => rhs; rw [he, items_blanks_append hc hg, items_append_blanks hc hg']

theorem items_of_blanks (hc : isBlank c = false) (hg : Blanks gap) : items c gap = [] := by
  rw [items_of_not_mem (hg.not_mem hc), trim_eq_nil_iff.2 hg]
  rfl

theorem not_mem_intercalate {sep : List Char} {texts : List (List Char)} (hsep : c ∉ sep)
    (h : ∀ t ∈ texts, c ∉ t) : c ∉ sep.intercalate texts := by
  induction texts with
  | nil => exact List.not_mem_nil
  | cons t texts ih =>
      obtain ⟨ht, htexts⟩ := List.forall_mem_cons.1 h
      cases texts with
      | nil => rwa [List.intercalate_singleton]
      | cons next texts =>
          rw [List.intercalate_cons_cons, List.mem_append, List.mem_append, not_or, not_or]
          exact ⟨⟨ht, hsep⟩, ih htexts⟩

/-- What is listed behind separators and blanks is found again, item by item. -/
theorem items_intercalate (hc : isBlank c = false) (hg : Blanks gap) (hg' : Blanks gap')
    (texts : List (List Char)) :
    items c (gap ++ ([c, ' '].intercalate texts ++ gap')) = texts.flatMap (items c) := by
  rw [items_blanks_append hc hg, items_append_blanks hc hg']
  induction texts with
  | nil => exact items_of_blanks hc blanks_nil
  | cons text texts ih =>
      cases texts with
      | nil => simp [List.intercalate]
      | cons next texts =>
          have hsplit : [c, ' '].intercalate (text :: next :: texts) =
              text ++ c :: ([' '] ++ [c, ' '].intercalate (next :: texts)) := by
            rw [List.intercalate_cons_cons, List.append_assoc]
            rfl
          rw [hsplit, items_append_cons, items_blanks_append hc blanks_space, ih,
            ← List.flatMap_cons]

end Drafting.Text
