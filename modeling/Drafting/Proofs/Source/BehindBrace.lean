import Drafting.Proofs.Source.Visits

namespace Drafting

namespace Source

open Text

section

variable {text raw : List Char} {marks : List (List Char)} {l l' : Line}

def replaceLine (text : List Char) (number : Nat) (raw : List Char) : List Char :=
  ['\n'].intercalate ((pieces '\n' text).set (number - 1) raw)

theorem pieces_replaceLine (h : '\n' ∉ raw) (number : Nat) :
    pieces '\n' (replaceLine text number raw) = (pieces '\n' text).set (number - 1) raw := by
  refine pieces_intercalate ?_ fun t ht => ?_
  · rw [Ne, List.set_eq_nil_iff]
    exact pieces_ne_nil '\n' text
  · rcases List.mem_or_eq_of_mem_set ht with ht | rfl
    · exact not_mem_of_mem_pieces ht
    · exact h

def Line.putFor (l m : Line) : Line := if m.number = l.number then l else m

theorem contentLines_replaceLine (h : '\n' ∉ raw) (hl : l ∈ contentLines marks text)
    (hl' : Line.ofRaw? marks l.number raw = some l') :
    contentLines marks (replaceLine text l.number raw) =
      (contentLines marks text).map l'.putFor := by
  obtain ⟨⟨raw₀, number⟩, hp, hraw⟩ := List.mem_filterMap.1 hl
  obtain rfl : l.number = number := Line.number_eq hraw
  obtain ⟨hpos, hget⟩ := List.mk_mem_zipIdx_iff_le_and_getElem?_sub.1 hp
  rw [contentLines, pieces_replaceLine h, zipIdx_set, List.filterMap_map, contentLines,
    List.map_filterMap]
  refine List.filterMap_congr fun p hq => ?_
  obtain ⟨raw₁, k⟩ := p
  have hnumber : l'.number = l.number := Line.number_eq hl'
  by_cases hk : k = l.number
  · subst hk
    obtain ⟨-, hget'⟩ := List.mk_mem_zipIdx_iff_le_and_getElem?_sub.1 hq
    obtain rfl : raw₀ = raw₁ := Option.some.inj (hget.symm.trans hget')
    rw [Function.comp_apply, if_pos (by omega), hl', hraw, Option.map_some, Line.putFor,
      if_pos hnumber.symm]
  · rw [Function.comp_apply, if_neg (by omega)]
    refine (Option.map_id' ..).symm.trans (Option.map_congr fun m hm => ?_)
    exact (if_neg fun he => hk ((Line.number_eq hm).symm.trans (he.trans hnumber))).symm

theorem sourceLines_replaceLine (h : '\n' ∉ raw) (hl : l ∈ sourceLines marks text)
    (hl' : Line.ofRaw? marks l.number raw = some l') (hh : header? l'.text = none) :
    sourceLines marks (replaceLine text l.number raw) =
      (sourceLines marks text).map l'.putFor := by
  have hnumber : l'.number = l.number := Line.number_eq hl'
  rw [sourceLines, contentLines_replaceLine h ((sourceLines_sublist marks text).subset hl) hl',
    sourceLines]
  refine dropHeader_map fun first hfirst => ?_
  obtain ⟨lines, hlines⟩ := List.head?_eq_some_iff.1 hfirst
  rw [Line.putFor]
  split
  next he =>
    have hnone : header? first.text = none := by
      by_contra hsome
      have hsorted := pairwise_number_contentLines marks text
      rw [hlines, List.map_cons, List.pairwise_cons] at hsorted
      rw [sourceLines, hlines, dropHeader, if_pos (Option.isSome_iff_ne_none.2 hsome)] at hl
      have hlt := hsorted.1 _ (List.mem_map_of_mem hl)
      omega
    rw [hh, hnone]
  next => rfl

end

namespace ClassText

variable {mode : Mode} {text body piece behind : List Char} {lines : List Line} {v : Mode × Line}

section

def body? : Mode → List Char → Option (List Char)
  | .inside _, text => some text
  | .declared _, '{' :: body => some body
  | _, text => (declaration? text).bind Declaration.body

def closing? (mode : Mode) (text : List Char) : Option (List Char × List Char) := do
  let (piece, some behind) := cut '}' (← body? mode text) | none
  some (piece, behind)

theorem closing?_eq_some_iff : closing? mode text = some (piece, behind) ↔
    ∃ body, body? mode text = some body ∧ cut '}' body = (piece, some behind) := by
  simp only [closing?, Option.bind_eq_bind, Option.bind_eq_some_iff]
  refine exists_congr fun body => and_congr_right fun _ => ?_
  obtain ⟨piece', rest⟩ := cut '}' body
  cases rest <;> simp

theorem isTopLevel_of_class (h : ∀ owner, mode ≠ .inside owner) (s : List Char) :
    isTopLevel mode ("class".toList ++ s) := by
  cases mode with
  | outside | declared => rfl
  | inside owner => exact absurd rfl (h owner)

/-- In front of what it says of the members of a class, a line says nothing that depends on them. -/
theorem exists_of_body? (h : body? mode text = some body) :
    ∃ (front : List Char) (owner : String) (ss : List Statement),
      text = front ++ body ∧ ∀ other, step mode (front ++ other) =
        { bodyStep owner other with statements := ss ++ (bodyStep owner other).statements } := by
  rw [body?.eq_def] at h
  split at h
  next owner =>
    cases h
    exact ⟨[], owner, [], rfl, fun _ => rfl⟩
  next owner _ =>
    cases h
    exact ⟨['{'], owner, [], rfl, fun _ => rfl⟩
  next hin hopen =>
    clear hopen
    obtain ⟨d, hd, hbody⟩ := Option.bind_eq_some_iff.1 h
    obtain ⟨parent, body', hne, hg, hn, he, hg'⟩ := declaration?_eq_some_iff.1 hd
    rename_i gap name extension gap'
    obtain rfl : body' = some body := hbody
    refine ⟨"class".toList ++ (gap ++ (name ++ (extension ++ (gap' ++ ['{'])))), String.ofList name,
      [.declare (String.ofList name) (parent.map String.ofList)], by simp [opening],
      fun other => ?_⟩
    have hother := declaration?_eq_some_iff.2 (.mk parent (some other) hne hg hn he hg')
    simp only [opening, List.append_assoc, List.singleton_append] at hother ⊢
    rw [step_of_isTopLevel (isTopLevel_of_class (fun owner => hin owner) _), outsideStep, hother]

theorem bodyStep_congr {body' other : List Char} {owner : String}
    (h : cut '}' body = (piece, some behind)) (h' : cut '}' body' = (piece, some other)) :
    bodyStep owner body = bodyStep owner body' := by
  rw [bodyStep, bodyStep, h, h']
  rfl

/-- A brace that closes a body ends the line: another text behind it makes no difference. -/
theorem exists_of_closing? (h : closing? mode text = some (piece, behind)) :
    ∃ kept, text = kept ++ '}' :: behind ∧
      ∀ other, step mode (kept ++ '}' :: other) = step mode text := by
  obtain ⟨body, hbody, hcut⟩ := closing?_eq_some_iff.1 h
  obtain ⟨front, owner, statements, rfl, hstep⟩ := exists_of_body? hbody
  obtain ⟨rfl, hpiece⟩ := cut_eq_some_iff.1 hcut
  refine ⟨front ++ piece, (List.append_assoc ..).symm, fun other => ?_⟩
  have hcongr : bodyStep owner (piece ++ '}' :: other) = bodyStep owner (piece ++ '}' :: behind) :=
    bodyStep_congr (cut_eq_some_iff.2 ⟨rfl, hpiece⟩) hcut
  rw [List.append_assoc, hstep, hstep, hcongr]

theorem understood_iff_of_closing? (h : closing? mode text = some (piece, behind)) :
    (step mode text).understood ↔ ∀ t ∈ memberTexts piece, (member? t).isSome := by
  obtain ⟨body, hbody, hcut⟩ := closing?_eq_some_iff.1 h
  obtain ⟨front, owner, statements, rfl, hstep⟩ := exists_of_body? hbody
  rw [hstep]
  exact (understood_bodyStep owner body).trans (by rw [hcut])

end

section

theorem eq_of_mem_visits (hl : (lines.map Line.number).Nodup) {v' : Mode × Line}
    (hv : v ∈ visits mode lines) (hv' : v' ∈ visits mode lines)
    (h : v.2.number = v'.2.number) : v = v' := by
  have hnodup : ((visits mode lines).map fun v => v.2.number).Nodup := by
    rw [← map_snd_visits mode lines, List.map_map] at hl
    exact hl
  exact List.inj_on_of_nodup_map hnodup hv hv' h

theorem number_mem_skipped_iff (hl : (lines.map Line.number).Nodup) (hv : v ∈ visits mode lines) :
    v.2.number ∈ (readFrom mode lines).2 ↔ ¬ (step v.1 v.2.text).understood := by
  simp only [readFrom_eq, List.mem_map, List.mem_filter, Bool.not_eq_true', Bool.not_eq_true]
  constructor
  · rintro ⟨v', ⟨hv', hu⟩, hnumber⟩
    rwa [← eq_of_mem_visits hl hv' hv hnumber]
  · exact fun hu => ⟨v, ⟨hv, hu⟩, rfl⟩

/-- Lines that say the same where they stand come to the same. -/
theorem readFrom_map {f : Line → Line}
    (h : ∀ v ∈ visits mode lines, (f v.2).number = v.2.number ∧
      step v.1 (f v.2).text = step v.1 v.2.text) :
    readFrom mode (lines.map f) = readFrom mode lines := by
  induction lines generalizing mode with
  | nil => rfl
  | cons line lines ih =>
      obtain ⟨⟨hnumber, hstep⟩, hlines⟩ := List.forall_mem_cons.1 h
      rw [List.map_cons, readFrom, readFrom, hnumber, hstep, ih hlines]

theorem readFrom_putFor {l : Line} (hl : (lines.map Line.number).Nodup)
    (hv : v ∈ visits mode lines) (hnumber : l.number = v.2.number)
    (hstep : step v.1 l.text = step v.1 v.2.text) :
    readFrom mode (lines.map l.putFor) = readFrom mode lines := by
  refine readFrom_map fun v' hv' => ?_
  rw [Line.putFor]
  split
  next he =>
    obtain rfl := eq_of_mem_visits hl hv hv' (hnumber.symm.trans he.symm)
    exact ⟨hnumber, hstep⟩
  next => exact ⟨rfl, rfl⟩

end

section

variable {α : Type} [Scalar α] {kept other : List Char}

theorem prefix_of_not_mem {mark a s : List Char} {c : Char} (hc : c ∉ mark)
    (h : mark <+: a ++ c :: s) : mark <+: a := by
  have hclosed : a ++ [c] <+: a ++ c :: s := ⟨s, by simp⟩
  rcases List.prefix_or_prefix_of_prefix h hclosed with h | h
  · rcases List.prefix_concat_iff.1 h with rfl | h
    · exact absurd (List.mem_append_right a (List.mem_singleton_self c)) hc
    · exact h
  · exact absurd (h.subset (List.mem_append_right a (List.mem_singleton_self c))) hc

/-- A line that closes a body still counts with another text behind the brace. -/
theorem exists_ofRaw?_closed {kept : List Char} (h : IsContent comments (kept ++ '}' :: behind))
    (number : Nat) (other : List Char) :
    ∃ l other', Line.ofRaw? comments number (kept ++ '}' :: other) = some l ∧
      l.text = kept ++ '}' :: other' := by
  have hhead : ∀ d ∈ kept.head?, isBlank d = false := fun d hd =>
    h.trimmed.head d (by rw [List.head?_append, Option.mem_def.1 hd]; rfl)
  obtain ⟨other', htrim⟩ := exists_trim_append_cons (c := '}') hhead (by decide) other
  have hmarks : ∀ mark ∈ comments, '}' ∉ mark := by decide
  have hcontent : IsContent comments (trim (kept ++ '}' :: other)) := by
    refine ⟨isTrimmed_trim _, by simp [htrim], fun mark hm hp => h.uncommented mark hm ?_⟩
    rw [htrim] at hp
    exact (prefix_of_not_mem (hmarks mark hm) hp).trans (List.prefix_append kept _)
  exact ⟨_, other', Line.ofRaw?_eq_some_iff.2 ⟨hcontent, rfl⟩, htrim⟩

/-- What stands behind the brace that closes a class is not read: with any other text in its place
the outcome is the same. Whether the line is reported depends only on the members before the
brace. -/
theorem parseWith_replaceLine_closing (hv : v ∈ visits .outside (sourceLines comments text))
    (hc : closing? v.1 v.2.text = some (piece, behind)) :
    ∃ kept, v.2.text = kept ++ '}' :: behind ∧
      (∀ other ids, '\n' ∉ other →
        (parseWith .classes (replaceLine text v.2.number (kept ++ '}' :: other)) ids :
          Except ReadError (Diagram α × IdSupply)) = parseWith .classes text ids) ∧
      ∀ (ids rest : IdSupply) (d : Diagram α), parseWith .classes text ids = .ok (d, rest) →
        (v.2.number ∈ d.skipped ↔ ∃ t ∈ memberTexts piece, member? t = none) := by
  obtain ⟨kept, hkept, hstep⟩ := exists_of_closing? hc
  have hnodup := nodup_numbers_sourceLines comments text
  have hl : v.2 ∈ sourceLines comments text := by
    rw [← map_snd_visits .outside (sourceLines comments text)]
    exact List.mem_map_of_mem hv
  obtain ⟨hcontent, hline⟩ := isContent_text hl
  rw [hkept] at hcontent hline
  refine ⟨kept, hkept, fun other ids hother => ?_, fun ids rest d h => ?_⟩
  · obtain ⟨l, other', hraw, htext⟩ := exists_ofRaw?_closed hcontent v.2.number other
    have hheader : header? l.text = none :=
      header?_eq_none_of_mem (c := '}') (by simp [htext]) (by decide) (by decide) (by decide)
        (by decide)
    have hnewline : '\n' ∉ kept ++ '}' :: other := by
      simp only [List.mem_append, List.mem_cons, not_or] at hline ⊢
      exact ⟨hline.1, by decide, hother⟩
    have hlines := sourceLines_replaceLine hnewline hl hraw hheader
    have hread := readFrom_putFor hnodup hv (Line.number_eq hraw) (htext ▸ hstep other')
    rw [parseWith_eq_ite, parseWith_eq_ite, show marks .classes = comments from rfl, hlines,
      List.isEmpty_map]
    simp only [read, hread]
    rfl
  · obtain ⟨-, -, rfl⟩ := parseWith_eq_ok h
    refine (number_mem_skipped_iff hnodup hv).trans ?_
    rw [understood_iff_of_closing? hc]
    simp

def shown (v : Mode × Line) : Mode × Nat × List Char := (v.1, v.2.number, v.2.text)

theorem exists_of_shown {number : Nat}
    (h : (mode, number, text) ∈ (visits .outside lines).map shown) :
    ∃ v ∈ visits .outside lines, v.1 = mode ∧ v.2.number = number ∧ v.2.text = text := by
  obtain ⟨v, hv, hshown⟩ := List.mem_map.1 h
  simp only [shown, Prod.mk.injEq] at hshown
  exact ⟨v, hv, hshown⟩

def classBehindBrace : List Char := "class Chest \x7b\n?; size() \x7d class Lost".toList

theorem classBehindBrace_replaceLine :
    ∃ (d : Diagram Float32) (rest : IdSupply),
      parseWith .classes classBehindBrace .fresh = .ok (d, rest) ∧
      2 ∈ d.skipped ∧
      parseWith .classes (replaceLine classBehindBrace 2 "?; size() \x7d \x7b a: b".toList) .fresh =
        .ok (d, rest) := by
  have hshown : (.inside "Chest", 2, "?; size() \x7d class Lost".toList) ∈
      (visits .outside (sourceLines comments classBehindBrace)).map shown := by decide +kernel
  obtain ⟨v, hv, hmode, hnumber, htext⟩ := exists_of_shown hshown
  have hc : closing? v.1 v.2.text = some ("?; size() ".toList, " class Lost".toList) := by
    rw [hmode, htext]
    decide +kernel
  have hparse := parseWith_eq (α := Float32) .classes classBehindBrace .fresh
    (by decide +kernel)
  obtain ⟨kept, hkept, hsame, hskipped⟩ := parseWith_replaceLine_closing (α := Float32) hv hc
  obtain rfl : kept = "?; size() ".toList :=
    List.append_cancel_right (hkept.symm.trans htext)
  rw [hnumber] at hsame hskipped
  exact ⟨_, _, hparse, (hskipped _ _ _ hparse).2 ⟨['?'], by decide +kernel⟩,
    (hsame " \x7b a: b".toList .fresh (by decide)).trans hparse⟩

/-- What stands behind the brace is understood as a line of its own, and what it says is said. -/
def ReadsOn (s : Step) (behind : List Char) : Prop :=
  (outsideStep (trim behind)).understood ∧
    ∀ statement ∈ (outsideStep (trim behind)).statements, statement ∈ s.statements

def textBehindBrace : List Char := "class Crate \x7b\x7d ???".toList

theorem textBehindBrace_not_skipped :
    (∃ (d : Diagram Float32) (rest : IdSupply),
      parseWith .classes textBehindBrace .fresh = .ok (d, rest) ∧
      d.skipped = []) ∧
      ¬ ∀ (text : List Char) (ids rest : IdSupply) (d : Diagram Float32),
        parseWith .classes text ids = .ok (d, rest) →
          ∀ v ∈ visits .outside (sourceLines comments text), ∀ piece behind,
            closing? v.1 v.2.text = some (piece, behind) → (∃ c ∈ behind, isBlank c = false) →
              ReadsOn (step v.1 v.2.text) behind ∨ v.2.number ∈ d.skipped := by
  have hparse := parseWith_eq (α := Float32) .classes textBehindBrace .fresh
    (by decide +kernel)
  refine ⟨⟨_, _, hparse, by decide +kernel⟩, fun h => ?_⟩
  have hshown : (.outside, 1, textBehindBrace) ∈
      (visits .outside (sourceLines comments textBehindBrace)).map shown := by decide +kernel
  obtain ⟨v, hv, hmode, hnumber, htext⟩ := exists_of_shown hshown
  have hc : closing? v.1 v.2.text = some ([], " ???".toList) := by
    rw [hmode, htext]
    decide +kernel
  rcases h textBehindBrace _ _ _ hparse v hv [] _ hc ⟨'?', by decide⟩ with h | h
  · exact absurd h.1 (by decide +kernel)
  · rw [hnumber] at h
    exact absurd h (by decide +kernel)

end

end ClassText

end Source

end Drafting
