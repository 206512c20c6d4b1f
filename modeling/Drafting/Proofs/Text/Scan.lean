import Mathlib.Data.List.Basic
import Mathlib.Data.List.TakeWhile
import Drafting.Text.Scan

namespace Drafting.Text

section

variable {α : Type} {p : α → Bool} {a b : List α}

theorem takeWhile_append_stop (ha : ∀ x ∈ a, p x) (hb : ∀ x ∈ b.head?, p x = false) :
    (a ++ b).takeWhile p = a := by
  rw [List.takeWhile_append_of_pos ha]
  cases b with
  | nil => simp
  | cons x b => simp [hb x rfl]

theorem dropWhile_append_stop (ha : ∀ x ∈ a, p x) (hb : ∀ x ∈ b.head?, p x = false) :
    (a ++ b).dropWhile p = b := by
  rw [List.dropWhile_append_of_pos ha]
  cases b with
  | nil => rfl
  | cons x b => simp [hb x rfl]

theorem not_of_head?_dropWhile (p : α → Bool) (a : List α) :
    ∀ x ∈ (a.dropWhile p).head?, p x = false := by
  intro x hx
  have h := List.head?_dropWhile_not p a
  rw [Option.mem_def.1 hx] at h
  exact h

end

variable {s rest name word : List Char} {c : Char}

theorem pieces_eq_splitOn (c : Char) (s : List Char) : pieces c s = s.splitOn c := by
  rw [List.splitOn_eq_splitOnP]
  induction s with
  | nil => rfl
  | cons d s ih =>
      rw [pieces, List.splitOnP_cons_eq_if_modifyHead, ← ih]
      by_cases hd : d = c
      · simp [hd]
      · cases hp : pieces c s with
        | nil => exact absurd hp (ih ▸ List.splitOnP_ne_nil _ _)
        | cons p ps => simp [hd]

theorem pieces_intercalate {texts : List (List Char)} (hne : texts ≠ []) (h : ∀ t ∈ texts, c ∉ t) :
    pieces c ([c].intercalate texts) = texts := by
  rw [pieces_eq_splitOn, List.splitOn_intercalate c h hne]

theorem pieces_ne_nil (c : Char) (s : List Char) : pieces c s ≠ [] := by
  rw [pieces_eq_splitOn, List.splitOn_eq_splitOnP]
  exact List.splitOnP_ne_nil _ _

theorem not_mem_of_mem_pieces {p : List Char} (h : p ∈ pieces c s) : c ∉ p := by
  induction s generalizing p with
  | nil => simp_all [pieces]
  | cons d s ih =>
      rw [pieces] at h
      split at h
      next hd =>
        rcases List.mem_cons.1 h with rfl | h
        · exact List.not_mem_nil
        · exact ih h
      next hd =>
        cases hp : pieces c s with
        | nil => exact absurd hp (pieces_ne_nil c s)
        | cons q qs =>
            rw [hp] at h ih
            rcases List.mem_cons.1 h with rfl | h
            · simpa [Ne.symm hd] using ih List.mem_cons_self
            · exact ih (List.mem_cons_of_mem _ h)

theorem fst_cut (c : Char) (s : List Char) : (cut c s).1 = s.takeWhile (· != c) := by
  induction s with
  | nil => rfl
  | cons d s ih =>
      rw [cut, List.takeWhile_cons]
      split
      next hd => simp [hd]
      next hd => simp [hd, ih]

def blanks : List Char :=
  [0x09, 0x0a, 0x0b, 0x0c, 0x0d, 0x20, 0x85, 0xa0, 0x1680, 0x2000, 0x2001, 0x2002, 0x2003, 0x2004,
    0x2005, 0x2006, 0x2007, 0x2008, 0x2009, 0x200a, 0x2028, 0x2029, 0x202f, 0x205f,
    0x3000].map Char.ofNat

theorem mem_blanks (h : isBlank c) : c ∈ blanks := by
  have hrange (m n : Nat) (hm : m ≤ c.toNat) (hn : c.toNat ≤ n)
      (hall : ∀ k ∈ List.range' m (n + 1 - m), Char.ofNat k ∈ blanks) : c ∈ blanks := by
    rw [← Char.ofNat_toNat c]
    exact hall _ (List.mem_range'_1.2 ⟨hm, by omega⟩)
  simp only [isBlank, Bool.or_eq_true, Bool.and_eq_true, decide_eq_true_eq, beq_iff_eq] at h
  rcases h with
    ((((((((((⟨hm, hn⟩ | rfl) | rfl) | rfl) | rfl) | ⟨hm, hn⟩) | rfl) | rfl) | rfl) | rfl) | rfl)
  case inl.inl.inl.inl.inl.inl.inl.inl.inl.inl => exact hrange 0x09 0x0d hm hn (by decide +kernel)
  case inl.inl.inl.inl.inl.inr => exact hrange 0x2000 0x200a hm hn (by decide +kernel)
  all_goals decide +kernel

theorem toLower_of_isBlank (h : isBlank c) : c.toLower = c := by
  have hall : blanks.all fun c => c.toLower == c := by decide +kernel
  exact beq_iff_eq.1 (List.all_eq_true.1 hall c (mem_blanks h))

theorem not_isBlank_of_toLower {d : Char} (h : c.toLower = d) (hd : isBlank d = false) :
    isBlank c = false := by
  cases hc : isBlank c with
  | false => rfl
  | true => rw [← hd, ← h, toLower_of_isBlank hc, hc]

def Blanks (s : List Char) : Prop := ∀ c ∈ s, isBlank c

theorem blanks_nil : Blanks [] := fun _ h => absurd h List.not_mem_nil

theorem blanks_space : Blanks [' '] := List.forall_mem_singleton.2 (by decide)

theorem skipBlanks_append {gap : List Char} (h : Blanks gap) (s : List Char) :
    skipBlanks (gap ++ s) = skipBlanks s :=
  List.dropWhile_append_of_pos h

theorem skipBlanks_of_head (h : ∀ c ∈ s.head?, isBlank c = false) : skipBlanks s = s :=
  dropWhile_append_stop (a := []) (by simp) h

theorem not_blank_of_head?_skipBlanks (s : List Char) :
    ∀ c ∈ (skipBlanks s).head?, isBlank c = false :=
  not_of_head?_dropWhile isBlank s

theorem exists_append_skipBlanks (s : List Char) : ∃ gap, Blanks gap ∧ s = gap ++ skipBlanks s :=
  ⟨s.takeWhile isBlank, fun _ => List.mem_takeWhile_imp, List.takeWhile_append_dropWhile.symm⟩

theorem skipBlanks_eq_nil_iff : skipBlanks s = [] ↔ Blanks s := List.dropWhile_eq_nil_iff

theorem gap?_eq_some_iff : gap? s = some rest ↔
    (∃ gap, gap ≠ [] ∧ Blanks gap ∧ s = gap ++ rest) ∧ ∀ c ∈ rest.head?, isBlank c = false := by
  constructor
  · intro h
    cases s with
    | nil => cases h
    | cons c s =>
        rw [gap?, Option.ite_none_right_eq_some] at h
        obtain ⟨hc, hs⟩ := h
        obtain ⟨gap, hg, he⟩ := exists_append_skipBlanks s
        rw [← Option.some_inj.1 hs]
        exact ⟨⟨c :: gap, by simp, List.forall_mem_cons.2 ⟨hc, hg⟩, by rw [List.cons_append, ← he]⟩,
          not_blank_of_head?_skipBlanks s⟩
  · rintro ⟨⟨gap, hne, hg, rfl⟩, hr⟩
    cases gap with
    | nil => exact absurd rfl hne
    | cons c gap =>
        obtain ⟨hc, hg⟩ := List.forall_mem_cons.1 hg
        rw [List.cons_append, gap?, if_pos hc, skipBlanks_append hg, skipBlanks_of_head hr]

theorem trim_append {gap : List Char} (h : Blanks gap) (s : List Char) :
    trim (gap ++ s) = trim s := by
  rw [trim, skipBlanks_append h, trim]

theorem trim_eq_nil_iff : trim s = [] ↔ Blanks s := by
  rw [trim, trimEnd, List.reverse_eq_nil_iff, List.dropWhile_eq_nil_iff, ← skipBlanks_eq_nil_iff]
  constructor
  · intro h
    cases hs : skipBlanks s with
    | nil => rfl
    | cons c t =>
        have hc := not_blank_of_head?_skipBlanks s c (by simp [hs])
        have hblank := h c (by simp [hs])
        simp [hc] at hblank
  · intro h
    simp [h]

theorem unquote_append {gap : List Char} (h : Blanks gap) (s : List Char) :
    unquote (gap ++ s) = unquote s := by
  rw [unquote, trim_append h, unquote]

/-- A name is empty if there is nothing, or nothing between quotation marks. -/
theorem unquote_eq_nil_iff : unquote s = [] ↔ Blanks s ∨ trim s = ['"', '"'] := by
  rw [← trim_eq_nil_iff, unquote]
  split
  next inner h =>
    rw [h]
    split
    next hl =>
      obtain ⟨init, rfl⟩ := List.getLast?_eq_some_iff.1 hl
      simp
    next hl =>
      simp only [reduceCtorEq, List.cons.injEq, true_and, false_or, false_iff]
      rintro rfl
      exact hl rfl
  next t h =>
    refine ⟨.inl, ?_⟩
    rintro (hn | hn)
    · exact hn
    · exact absurd hn (h _)

theorem mem_skipBlanks (hm : c ∈ s) (hc : isBlank c = false) : c ∈ skipBlanks s := by
  obtain ⟨gap, hg, he⟩ := exists_append_skipBlanks s
  rw [he] at hm
  refine (List.mem_append.1 hm).resolve_left fun hm => ?_
  simp [hg c hm] at hc

theorem mem_trim (hm : c ∈ s) (hc : isBlank c = false) : c ∈ trim s :=
  List.mem_reverse.2 (mem_skipBlanks (List.mem_reverse.2 (mem_skipBlanks hm hc)) hc)

theorem unquote_ne_nil_of_mem (hm : c ∈ s) (hc : isBlank c = false) (hq : c ≠ '"') :
    unquote s ≠ [] := by
  rw [Ne, unquote_eq_nil_iff, not_or]
  constructor
  · intro h
    simp [h c hm] at hc
  · intro h
    have ht := mem_trim hm hc
    rw [h] at ht
    simp [hq] at ht

def Annotates (s : List Char) : Option (List Char) → Prop
  | none => Blanks s
  | some label => ∃ gap note, s = gap ++ ':' :: note ∧ Blanks gap ∧ label = trim note ∧ label ≠ []

theorem nonempty?_eq_some_iff {t : List Char} : nonempty? s = some t ↔ t = s ∧ t ≠ [] := by
  cases s <;> simp +contextual [nonempty?, eq_comm]

theorem annotation?_eq_some_iff {label : Option (List Char)} :
    annotation? s = some label ↔ Annotates s label := by
  constructor
  · intro h
    obtain ⟨gap, hg, he⟩ := exists_append_skipBlanks s
    rw [annotation?] at h
    split at h
    next hs =>
      cases h
      exact skipBlanks_eq_nil_iff.1 hs
    next note hs =>
      obtain ⟨t, ht, rfl⟩ := Option.map_eq_some_iff.1 h
      obtain ⟨rfl, hne⟩ := nonempty?_eq_some_iff.1 ht
      exact ⟨gap, note, hs ▸ he, hg, rfl, hne⟩
    next => cases h
  · intro h
    cases label with
    | none => rw [annotation?, skipBlanks_eq_nil_iff.2 h]
    | some label =>
        obtain ⟨gap, note, rfl, hg, rfl, hne⟩ := h
        rw [annotation?, skipBlanks_append hg, skipBlanks_of_head (by simp; decide)]
        change (nonempty? (trim note)).map some = _
        rw [nonempty?_eq_some_iff.2 ⟨rfl, hne⟩, Option.map_some]

def IsAnnotation (s : List Char) : Prop :=
  Blanks s ∨ ∃ gap label, s = gap ++ ':' :: label ∧ Blanks gap ∧ ¬ Blanks label

theorem isSome_annotation?_iff : (annotation? s).isSome ↔ IsAnnotation s := by
  simp only [Option.isSome_iff_exists, annotation?_eq_some_iff, IsAnnotation, ← trim_eq_nil_iff]
  constructor
  · rintro ⟨_ | label, h⟩
    · exact .inl (trim_eq_nil_iff.2 h)
    · obtain ⟨gap, note, hs, hg, rfl, hne⟩ := h
      exact .inr ⟨gap, note, hs, trim_eq_nil_iff.2 hg, hne⟩
  · rintro (h | ⟨gap, note, hs, hg, hne⟩)
    · exact ⟨none, trim_eq_nil_iff.1 h⟩
    · exact ⟨some _, gap, note, hs, trim_eq_nil_iff.1 hg, rfl, hne⟩

theorem caseless?_eq_some_iff :
    caseless? word s = some rest ↔ ∃ w, s = w ++ rest ∧ w.map Char.toLower = word := by
  rw [caseless?, Option.ite_none_right_eq_some, Option.some_inj]
  constructor
  · rintro ⟨hw, rfl⟩
    exact ⟨s.take word.length, (List.take_append_drop _ _).symm, hw⟩
  · rintro ⟨w, rfl, rfl⟩
    simp

theorem exists_head_of_caseless? {d : Char} (h : caseless? (d :: word) s = some rest) :
    ∃ c t, s = c :: t ∧ c.toLower = d := by
  obtain ⟨w, rfl, hw⟩ := caseless?_eq_some_iff.1 h
  cases w with
  | nil => cases hw
  | cons c w => exact ⟨c, _, rfl, (List.cons_eq_cons.1 hw).1⟩

/-- A text begins with one keyword only. -/
theorem caseless?_eq_none {d e : Char} {word' : List Char} (h : caseless? (d :: word) s = some rest)
    (hd : d ≠ e) : caseless? (e :: word') s = none := by
  refine Option.eq_none_iff_forall_ne_some.2 fun rest' h' => hd ?_
  obtain ⟨c, t, rfl, hc⟩ := exists_head_of_caseless? h
  obtain ⟨c', t', he, hc'⟩ := exists_head_of_caseless? h'
  rw [← hc, ← hc', (List.cons.inj he).1]

def IsDeclaration (word s : List Char) : Prop :=
  ∃ w gap name, s = w ++ (gap ++ name) ∧ w.map Char.toLower = word ∧ gap ≠ [] ∧ Blanks gap ∧
    unquote name ≠ []

theorem isSome_nonempty?_iff : (nonempty? s).isSome ↔ s ≠ [] := by
  cases s <;> simp [nonempty?]

theorem isSome_declared_iff :
    ((caseless? word s).bind fun t => (gap? t).bind fun t => nonempty? (unquote t)).isSome ↔
      IsDeclaration word s := by
  simp only [Option.isSome_iff_exists, Option.bind_eq_some_iff]
  constructor
  · rintro ⟨_, t, ht, name, hgap, hn⟩
    obtain ⟨w, rfl, hw⟩ := caseless?_eq_some_iff.1 ht
    obtain ⟨⟨gap, hne, hg, rfl⟩, -⟩ := gap?_eq_some_iff.1 hgap
    exact ⟨w, gap, name, rfl, hw, hne, hg, isSome_nonempty?_iff.1 (hn ▸ rfl)⟩
  · rintro ⟨w, gap, name, rfl, hw, hne, hg, hn⟩
    obtain ⟨gap', hg', he⟩ := exists_append_skipBlanks name
    have hgap : gap? (gap ++ name) = some (skipBlanks name) := by
      refine gap?_eq_some_iff.2 ⟨⟨gap ++ gap', ?_, ?_, ?_⟩, not_blank_of_head?_skipBlanks name⟩
      · simp [hne]
      · exact fun c hc => (List.mem_append.1 hc).elim (hg c) (hg' c)
      · rw [List.append_assoc, ← he]
    rw [he, unquote_append hg'] at hn
    obtain ⟨n, hn⟩ := Option.isSome_iff_exists.1 (isSome_nonempty?_iff.2 hn)
    exact ⟨n, _, caseless?_eq_some_iff.2 ⟨w, rfl, hw⟩, _, hgap, hn⟩

theorem IsDeclaration.exists_head {d : Char} (h : IsDeclaration (d :: word) s) :
    ∃ c t, s = c :: t ∧ c.toLower = d := by
  obtain ⟨w, gap, name, hs, hw, -⟩ := h
  exact exists_head_of_caseless? (caseless?_eq_some_iff.2 ⟨w, hs, hw⟩)

theorem eq_space_of_toLower (h : c.toLower = ' ') : c = ' ' := by
  delta Char.toLower at h
  split at h
  next hc =>
    have hv := congrArg (fun c : Char => c.val.toNat) h
    have hl := UInt32.le_iff_toNat_le.1 hc.1
    have hu := UInt32.le_iff_toNat_le.1 hc.2
    simp at hv hl hu
    omega
  next => exact h

/-- Behind the keyword and a blank, only the name is in question. -/
theorem isDeclaration_iff (h : (caseless? (word ++ [' ']) s).isSome) :
    IsDeclaration word s ↔ unquote (s.drop word.length) ≠ [] := by
  constructor
  · rintro ⟨w, gap, name, rfl, rfl, -, hg, hn⟩
    rwa [List.length_map, List.drop_left, unquote_append hg]
  · intro hn
    obtain ⟨rest, hr⟩ := Option.isSome_iff_exists.1 h
    obtain ⟨w, rfl, hw⟩ := caseless?_eq_some_iff.1 hr
    obtain ⟨w, gap, rfl, rfl, hgap⟩ := List.map_eq_append_iff.1 hw
    obtain ⟨c, rfl, hc⟩ := List.map_eq_singleton_iff.1 hgap
    rw [eq_space_of_toLower hc, List.length_map, List.append_assoc, List.drop_left] at hn
    rw [unquote_append blanks_space] at hn
    exact ⟨w, _, rest, List.append_assoc _ _ _, rfl, by simp,
      eq_space_of_toLower hc ▸ blanks_space, hn⟩

def IsName (inner : Char → Bool) (name : List Char) : Prop :=
  ∃ c s, name = c :: s ∧ (isAsciiLetter c || c == '_') ∧ ∀ d ∈ s, inner d

theorem name?_eq_some_iff {inner : Char → Bool} : name? inner s = some (name, rest) ↔
    s = name ++ rest ∧ IsName inner name ∧ ∀ c ∈ rest.head?, inner c = false := by
  constructor
  · intro h
    cases s with
    | nil => cases h
    | cons c s =>
        rw [name?, Option.ite_none_right_eq_some, Option.some_inj, Prod.mk.injEq] at h
        obtain ⟨hc, rfl, rfl⟩ := h
        refine ⟨by simp, ⟨c, _, rfl, hc, fun _ => List.mem_takeWhile_imp⟩, ?_⟩
        exact not_of_head?_dropWhile inner s
  · rintro ⟨rfl, ⟨c, s, rfl, hc, hs⟩, hr⟩
    rw [List.cons_append, name?, if_pos hc, takeWhile_append_stop hs hr,
      dropWhile_append_stop hs hr]

end Drafting.Text
