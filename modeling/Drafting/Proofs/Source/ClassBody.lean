import Drafting.Proofs.Source.Grammar.ClassText
import Drafting.Proofs.Source.Mirror
import Drafting.Proofs.Text.Pieces
import Drafting.Number.Binary32

namespace Drafting.Source

open Text

namespace ClassText

variable {name body rest : List Char} {ms : List (List Char)} {owner : String}
  {members : List Member} {ss : List Statement}

def statements : Mode → List (List Char) → List Statement
  | _, [] => []
  | mode, text :: texts => (step mode text).statements ++ statements (step mode text).mode texts

theorem fst_readFrom (mode : Mode) (lines : List Line) :
    (readFrom mode lines).1 = statements mode (lines.map Line.text) := by
  induction lines generalizing mode with
  | nil => rfl
  | cons line lines ih =>
      rw [readFrom, List.map_cons, statements, ← ih]

def memberOf? : Statement → Option Member
  | .member _ m => some m
  | _ => none

def collect (members : List Member) : Compartments :=
  ⟨members.filterMap fun
      | .attribute a => some a
      | .method _ => none,
    members.filterMap fun
      | .attribute _ => none
      | .method m => some m⟩

theorem foldl_add (members : List Member) (c : Compartments) :
    members.foldl Compartments.add c =
      ⟨c.attributes ++ (collect members).attributes, c.methods ++ (collect members).methods⟩ := by
  induction members generalizing c with
  | nil => simp [collect]
  | cons m members ih =>
      rw [List.foldl_cons, ih]
      cases m <;> simp [Compartments.add, collect]

inductive Concerns (owner : String) : Statement → Prop
  | declare : Concerns owner (.declare owner none)
  | member (m : Member) : Concerns owner (.member owner m)

theorem foldl_declareIn (h : ∀ s ∈ ss, Concerns owner s) (c : Compartments) :
    ss.foldl declareIn [⟨owner, none, c⟩] =
      [⟨owner, none, (ss.filterMap memberOf?).foldl Compartments.add c⟩] := by
  induction ss generalizing c with
  | nil => rfl
  | cons s ss ih =>
      obtain ⟨hs, hss⟩ := List.forall_mem_cons.1 h
      rw [List.foldl_cons]
      cases hs with
      | declare =>
          rw [show declareIn [⟨owner, none, c⟩] (.declare owner none) = [⟨owner, none, c⟩] by
            simp [declareIn, update], ih hss]
          rfl
      | member m =>
          rw [show declareIn [⟨owner, none, c⟩] (.member owner m) =
            [⟨owner, none, Compartments.add c m⟩] by simp [declareIn, update], ih hss]
          rfl

theorem classTable_eq (hne : ss ≠ []) (h : ∀ s ∈ ss, Concerns owner s) :
    classTable ss = [⟨owner, none, collect (ss.filterMap memberOf?)⟩] := by
  have hfirst : classTable ss = ss.foldl declareIn [⟨owner, none, .empty⟩] := by
    obtain ⟨s, ss, rfl⟩ := List.exists_cons_of_ne_nil hne
    rw [classTable, List.foldl_cons, List.foldl_cons]
    cases h s List.mem_cons_self <;> simp [declareIn, update]
  rw [hfirst, foldl_declareIn h, foldl_add]
  rfl

/-- The statements say that there is a class with these members, and nothing else. -/
structure Describes (ss : List Statement) (owner : String) (members : List Member) : Prop where
  ne_nil : ss ≠ []
  concerns : ∀ s ∈ ss, Concerns owner s
  members : ss.filterMap memberOf? = members

theorem describes_declare (owner : String) (members : List Member) :
    Describes (.declare owner none :: members.map (.member owner)) owner members := by
  constructor
  case ne_nil => exact List.cons_ne_nil _ _
  case concerns => simp [Concerns.declare, Concerns.member]
  case members =>
    rw [List.filterMap_cons_none rfl, List.filterMap_map]
    exact List.filterMap_some

theorem Describes.append {more : List Member} {ts : List Statement} (h : Describes ss owner members)
    (h' : Describes ts owner more) : Describes (ss ++ ts) owner (members ++ more) := by
  constructor
  case ne_nil => exact List.append_ne_nil_of_left_ne_nil h.ne_nil _
  case concerns => exact List.forall_mem_append.2 ⟨h.concerns, h'.concerns⟩
  case members => rw [List.filterMap_append, h.members, h'.members]

def box (owner : String) (c : Compartments) : Sketch :=
  ⟨[⟨.classBox, owner, some (.members c)⟩], [], none⟩

theorem Describes.relations_eq_nil (h : Describes ss owner members) : relations ss = [] := by
  rw [relations, classTable_eq h.ne_nil h.concerns]
  refine List.append_eq_nil_iff.2 ⟨rfl, List.filterMap_eq_nil_iff.2 fun s hs => ?_⟩
  cases h.concerns s hs <;> rfl

theorem Describes.titleOf_eq_none (h : Describes ss owner members) : titleOf ss = none := by
  rw [titleOf]
  refine List.foldlRecOn (motive := fun t => t = none) ss _ rfl fun t ht s hs => ?_
  cases h.concerns s hs <;> exact ht

theorem Describes.sketch_eq (h : Describes ss owner members) :
    sketch ss = box owner (collect members) := by
  rw [sketch, classTable_eq h.ne_nil h.concerns, h.relations_eq_nil, h.titleOf_eq_none, h.members]
  rfl

/-- A text that speaks of one class only is read as a diagram of that class. -/
theorem Describes.parseWith_eq {α : Type} [Scalar α] {text : List Char}
    (h : Describes (readFrom .outside (sourceLines comments text)).1 owner members)
    (ids : IdSupply) :
    parseWith .classes text ids =
      .ok (((box owner (collect members)).toDiagram .classes
        (readFrom .outside (sourceLines comments text)).2 [] ids : Diagram α),
        (box owner (collect members)).spend ids) := by
  have hlines : ¬ (sourceLines comments text).isEmpty := by
    intro hempty
    have hne := h.ne_nil
    rw [List.isEmpty_iff.1 hempty] at hne
    exact hne rfl
  have hunresolved : unresolved (readFrom .outside (sourceLines comments text)).1 = [] := by
    rw [unresolved, h.relations_eq_nil]
    rfl
  simp only [parseWith_eq_ite, marks, read, h.sketch_eq, hunresolved]
  rw [if_neg hlines]
  rfl

def membersIn (ms : List (List Char)) : List Member := (ms.flatMap memberTexts).filterMap member?

theorem membersIn_cons (m : List Char) (ms : List (List Char)) :
    membersIn (m :: ms) = membersIn [m] ++ membersIn ms := by
  simp [membersIn]

theorem membersIn_trim (m : List Char) : membersIn [trim m] = membersIn [m] := by
  simp only [membersIn, List.flatMap_singleton]
  rw [show memberTexts (trim m) = memberTexts m from items_trim (by decide) m]

theorem membersIn_of_trim_eq_nil {m : List Char} (h : trim m = []) : membersIn [m] = [] := by
  rw [← membersIn_trim, h]
  rfl

def listed (ms : List (List Char)) : List Char := [' '] ++ ([';', ' '].intercalate ms ++ [' '])

theorem memberTexts_listed (ms : List (List Char)) :
    memberTexts (listed ms) = ms.flatMap memberTexts := by
  exact items_intercalate (by decide) blanks_space blanks_space ms

theorem membersIn_listed (ms : List (List Char)) : membersIn [listed ms] = membersIn ms := by
  rw [membersIn, List.flatMap_singleton, memberTexts_listed, membersIn]

theorem not_mem_listed {c : Char} (hc : c ≠ ';') (hs : c ≠ ' ') (h : ∀ m ∈ ms, c ∉ m) :
    c ∉ listed ms := by
  have hlist : c ∉ [';', ' '].intercalate ms := not_mem_intercalate (by simp [hc, hs]) h
  simp [listed, hs, hlist]

theorem statements_bodyStep (owner : String) (body : List Char) :
    (bodyStep owner body).statements =
      (membersIn [(cut '}' body).1]).map (.member owner) := by
  rw [bodyStep, membersIn, List.flatMap_singleton, List.map_filterMap]
  dsimp only
  rw [List.filterMap_map]
  rfl

theorem understood_bodyStep (owner : String) (body : List Char) :
    (bodyStep owner body).understood ↔ ∀ t ∈ memberTexts (cut '}' body).1, (member? t).isSome := by
  simp [bodyStep]

theorem bodyStep_append_brace (owner : String) (h : '}' ∉ body) :
    (bodyStep owner (body ++ ['}'])).statements = (membersIn [body]).map (.member owner) ∧
      (bodyStep owner (body ++ ['}'])).mode = .outside := by
  rw [statements_bodyStep, bodyStep, cut_eq_some_iff.2 ⟨rfl, h⟩]
  exact ⟨rfl, rfl⟩

theorem bodyStep_of_not_mem (owner : String) (h : '}' ∉ body) :
    (bodyStep owner body).statements = (membersIn [body]).map (.member owner) ∧
      (bodyStep owner body).mode = .inside owner := by
  rw [statements_bodyStep, bodyStep, cut_of_not_mem h]
  exact ⟨rfl, rfl⟩

def heading (name rest : List Char) : List Char := "class".toList ++ ([' '] ++ (name ++ rest))

theorem outsideStep_heading_nil (hn : IsName isNameChar name) :
    outsideStep (heading name []) =
      ⟨[.declare (String.ofList name) none], true, .declared (String.ofList name)⟩ := by
  have hd : Heads (heading name []) ⟨String.ofList name, none, none⟩ := by
    simpa [heading, opening] using
      Heads.mk none none (by simp) blanks_space hn rfl blanks_nil
  rw [outsideStep, declaration?_eq_some_iff.2 hd]

theorem outsideStep_heading_brace (hn : IsName isNameChar name) (body : List Char) :
    outsideStep (heading name (' ' :: '{' :: body)) =
      { bodyStep (String.ofList name) body with
        statements := .declare (String.ofList name) none ::
          (bodyStep (String.ofList name) body).statements } := by
  have hd : Heads (heading name (' ' :: '{' :: body)) ⟨String.ofList name, none, some body⟩ := by
    simpa [heading, opening] using
      Heads.mk none (some body) (by simp) blanks_space hn rfl blanks_space
  rw [outsideStep, declaration?_eq_some_iff.2 hd]

theorem header?_heading (name rest : List Char) : header? (heading name rest) = none := by
  have hword : (heading name rest).takeWhile (fun c => !isBlank c) = "class".toList :=
    takeWhile_append_stop (List.all_eq_true.1 (by decide)) (by simp; decide)
  rw [header?, hword]
  simp only [show headerWords.lookup ("class".toList.map Char.toLower) = none by decide]
  split <;> rfl

def counts (text : List Char) : Bool := !(text.isEmpty || comments.any (·.isPrefixOf text))

theorem counts_heading (name rest : List Char) : counts (heading name rest) = true := rfl

theorem filter_counts_cons {text : List Char} (h : IsTrimmed text) (hc : counts text)
    (texts : List (List Char)) :
    ((text :: texts).map trim).filter counts = text :: (texts.map trim).filter counts := by
  rw [List.map_cons, h.trim_eq, List.filter_cons_of_pos hc]

theorem map_text_sourceLines {raws : List (List Char)} (ht : IsTrimmed (heading name rest))
    (hnl : ∀ raw ∈ heading name rest :: raws, '\n' ∉ raw) :
    (sourceLines comments (['\n'].intercalate (heading name rest :: raws))).map Line.text =
      ((heading name rest :: raws).map trim).filter counts := by
  have htexts :
      (contentLines comments (['\n'].intercalate (heading name rest :: raws))).map Line.text =
        ((heading name rest :: raws).map trim).filter counts := by
    rw [map_text_contentLines, pieces_intercalate (List.cons_ne_nil _ _) hnl]
    rfl
  rw [← htexts]
  rw [filter_counts_cons ht (counts_heading name rest)] at htexts
  obtain ⟨line, lines, hl, hline, -⟩ := List.map_eq_cons_iff.1 htexts
  rw [sourceLines_of_no_header hl (hline ▸ header?_heading name rest), hl]

structure IsMemberLine (m : List Char) : Prop where
  brace : '}' ∉ m
  newline : '\n' ∉ m
  comment : ∀ mark ∈ comments, ¬ mark <+: trim m

theorem IsMemberLine.counts_iff {m : List Char} (h : IsMemberLine m) :
    counts (trim m) = true ↔ trim m ≠ [] := by
  have hmark : comments.any (·.isPrefixOf (trim m)) = false := by
    rw [List.any_eq_false]
    exact fun mark hm hp => h.comment mark hm (List.isPrefixOf_iff_prefix.1 hp)
  rw [counts, hmark]
  simp

/-- From line to line a body says what its members are, until it is closed. -/
theorem statements_inside (h : ∀ m ∈ ms, IsMemberLine m) :
    statements (.inside owner) (((ms ++ [['}']]).map trim).filter counts) =
      (membersIn ms).map (.member owner) := by
  induction ms with
  | nil => rfl
  | cons m ms ih =>
      obtain ⟨hm, hms⟩ := List.forall_mem_cons.1 h
      have hmembers : (membersIn (m :: ms)).map (Statement.member owner) =
          (membersIn [m]).map (Statement.member owner) ++
            statements (.inside owner) (((ms ++ [['}']]).map trim).filter counts) := by
        rw [membersIn_cons, List.map_append, ih hms]
      rw [List.cons_append, List.map_cons, hmembers]
      by_cases hblank : trim m = []
      · have hn : ¬ counts (trim m) := fun hc => hm.counts_iff.1 hc hblank
        rw [List.filter_cons_of_neg hn, membersIn_of_trim_eq_nil hblank]
        rfl
      · have hbrace : '}' ∉ trim m := fun hc => hm.brace ((trim_sublist m).subset hc)
        obtain ⟨hstatements, hmode⟩ := bodyStep_of_not_mem owner hbrace
        rw [List.filter_cons_of_pos (hm.counts_iff.2 hblank), statements, step, hstatements, hmode,
          membersIn_trim]

theorem isTrimmed_heading (hn : IsName isNameChar name)
    (hrest : ∀ c ∈ rest.getLast?, isBlank c = false) : IsTrimmed (heading name rest) := by
  constructor
  case head => simp [heading]; decide
  case last =>
    rw [heading, ← List.append_assoc, ← List.append_assoc]
    by_cases hr : rest = []
    · have hne : name ≠ [] := by
        obtain ⟨c, s, rfl, -⟩ := hn
        exact List.cons_ne_nil _ _
      rw [hr, List.append_nil, List.getLast?_append_of_ne_nil _ hne]
      exact fun c hc => not_isBlank_of_mem hn (List.mem_of_getLast? hc)
    · rwa [List.getLast?_append_of_ne_nil _ hr]

theorem newline_not_mem_heading (hn : IsName isNameChar name) (hrest : '\n' ∉ rest) :
    '\n' ∉ heading name rest := by
  have hname : '\n' ∉ name := fun h => absurd (not_isBlank_of_mem hn h) (by decide)
  simp [heading, hname, hrest]

def whole (name : List Char) (ms : List (List Char)) : List Char :=
  heading name (' ' :: '{' :: (listed ms ++ ['}']))

theorem isTrimmed_whole (hn : IsName isNameChar name) (ms : List (List Char)) :
    IsTrimmed (whole name ms) := by
  refine isTrimmed_heading hn ?_
  rw [← List.cons_append, ← List.cons_append, List.getLast?_concat]
  simp
  decide

theorem counts_whole (name : List Char) (ms : List (List Char)) :
    counts (whole name ms) = true := rfl

/-- A body that opens on the line of the name. -/
theorem statements_heading_brace (hn : IsName isNameChar name) (body : List Char)
    (texts : List (List Char)) :
    let inner := bodyStep (String.ofList name) body
    statements .outside (heading name (' ' :: '{' :: body) :: texts) =
      .declare (String.ofList name) none :: inner.statements ++ statements inner.mode texts := by
  rw [statements, step.eq_def]
  dsimp only
  rw [outsideStep_heading_brace hn]

/-- It makes no difference if the brace stands behind the name or on the next line. -/
theorem statements_brace_below (hn : IsName isNameChar name) (body : List Char)
    (texts : List (List Char)) :
    statements .outside (heading name [] :: ('{' :: body) :: texts) =
      statements .outside (heading name (' ' :: '{' :: body) :: texts) := by
  rw [statements_heading_brace hn, statements, step.eq_def]
  dsimp only
  rw [outsideStep_heading_nil hn]
  rfl

theorem statements_whole (hn : IsName isNameChar name) (hms : ∀ m ∈ ms, '}' ∉ m)
    (texts : List (List Char)) :
    statements .outside (whole name ms :: texts) =
      .declare (String.ofList name) none :: (membersIn ms).map (.member (String.ofList name)) ++
        statements .outside texts := by
  have hbrace : '}' ∉ listed ms := not_mem_listed (by decide) (by decide) hms
  obtain ⟨hstatements, hmode⟩ := bodyStep_append_brace (String.ofList name) hbrace
  rw [whole, statements_heading_brace hn, hstatements, hmode, membersIn_listed]

theorem statements_block (hn : IsName isNameChar name) (hms : ∀ m ∈ ms, IsMemberLine m) :
    statements .outside (heading name [' ', '{'] :: ((ms ++ [['}']]).map trim).filter counts) =
      .declare (String.ofList name) none :: (membersIn ms).map (.member (String.ofList name)) := by
  obtain ⟨hstatements, hmode⟩ :=
    bodyStep_of_not_mem (String.ofList name) (List.not_mem_nil (a := '}'))
  rw [statements_heading_brace hn, hstatements, hmode, statements_inside hms]
  rfl

/-- Declarations of one class add up. -/
theorem describes_repeated (hn : IsName isNameChar name) (hms : ∀ m ∈ ms, '}' ∉ m)
    (hne : ms ≠ []) :
    Describes (statements .outside (ms.map fun m => whole name [m])) (String.ofList name)
      (membersIn ms) := by
  induction ms with
  | nil => exact absurd rfl hne
  | cons m ms ih =>
      obtain ⟨hm, hms⟩ := List.forall_mem_cons.1 hms
      have hfirst := describes_declare (String.ofList name) (membersIn [m])
      rw [List.map_cons, statements_whole hn (List.forall_mem_singleton.2 hm), membersIn_cons m ms]
      cases ms with
      | nil => simpa [membersIn, statements] using hfirst
      | cons next ms => exact hfirst.append (ih hms (List.cons_ne_nil _ _))

/-- How the body of a class may be written: all on one line or each member on its own, with the
brace behind the name or on the next line, or with one declaration for each member. -/
inductive Spelling where
  | oneLine
  | oneLineBelow
  | block
  | blockBelow
  | repeated
deriving DecidableEq

def Spelling.lines (name : List Char) (ms : List (List Char)) : Spelling → List (List Char)
  | oneLine => [whole name ms]
  | oneLineBelow => [heading name [], '{' :: (listed ms ++ ['}'])]
  | block => heading name [' ', '{'] :: (ms ++ [['}']])
  | blockBelow => heading name [] :: ['{'] :: (ms ++ [['}']])
  | repeated => ms.map fun m => whole name [m]

def Spelling.write (s : Spelling) (name : List Char) (ms : List (List Char)) : List Char :=
  ['\n'].intercalate (s.lines name ms)

theorem newline_not_mem_lines (hn : IsName isNameChar name) (hms : ∀ m ∈ ms, '\n' ∉ m)
    (s : Spelling) : ∀ line ∈ s.lines name ms, '\n' ∉ line := by
  have hheading {rest : List Char} (hrest : '\n' ∉ rest) : '\n' ∉ heading name rest :=
    newline_not_mem_heading hn hrest
  have hlisted (texts : List (List Char)) (h : ∀ m ∈ texts, '\n' ∉ m) :
      '\n' ∉ '{' :: (listed texts ++ ['}']) := by
    simp [not_mem_listed (by decide) (by decide) h]
  have hblock : ∀ line ∈ ms ++ [['}']], '\n' ∉ line := by
    rw [List.forall_mem_append]
    exact ⟨hms, by simp⟩
  cases s with
  | oneLine =>
      refine List.forall_mem_singleton.2 (hheading ?_)
      simpa using hlisted ms hms
  | oneLineBelow =>
      exact List.forall_mem_cons.2
        ⟨hheading List.not_mem_nil, List.forall_mem_singleton.2 (hlisted ms hms)⟩
  | block => exact List.forall_mem_cons.2 ⟨hheading (by simp), hblock⟩
  | blockBelow =>
      exact List.forall_mem_cons.2
        ⟨hheading List.not_mem_nil, List.forall_mem_cons.2 ⟨by simp, hblock⟩⟩
  | repeated =>
      refine List.forall_mem_map.2 fun m hm => hheading ?_
      simpa using hlisted [m] (List.forall_mem_singleton.2 (hms m hm))

theorem exists_lines_eq (hn : IsName isNameChar name) (s : Spelling)
    (hs : s = .repeated → ms ≠ []) :
    ∃ rest raws, s.lines name ms = heading name rest :: raws ∧ IsTrimmed (heading name rest) := by
  cases s with
  | oneLine => exact ⟨_, _, rfl, isTrimmed_whole hn ms⟩
  | oneLineBelow | blockBelow => exact ⟨_, _, rfl, isTrimmed_heading hn (by simp)⟩
  | block => exact ⟨_, _, rfl, isTrimmed_heading hn (by simp; decide)⟩
  | repeated =>
      obtain ⟨m, ms, rfl⟩ := List.exists_cons_of_ne_nil (hs rfl)
      exact ⟨_, _, rfl, isTrimmed_whole hn [m]⟩

theorem map_text_write (hn : IsName isNameChar name) (hms : ∀ m ∈ ms, '\n' ∉ m)
    (s : Spelling) (hs : s = .repeated → ms ≠ []) :
    (sourceLines comments (s.write name ms)).map Line.text =
      ((s.lines name ms).map trim).filter counts := by
  obtain ⟨rest, raws, hlines, htrim⟩ := exists_lines_eq hn s hs
  have hnl := newline_not_mem_lines hn hms s
  rw [hlines] at hnl
  rw [Spelling.write, hlines, map_text_sourceLines htrim hnl]

theorem describes_write (hn : IsName isNameChar name) (hms : ∀ m ∈ ms, IsMemberLine m)
    (s : Spelling) (hs : s = .repeated → ms ≠ []) :
    Describes (readFrom .outside (sourceLines comments (s.write name ms))).1 (String.ofList name)
      (membersIn ms) := by
  have hbraces : ∀ m ∈ ms, '}' ∉ m := fun m hm => (hms m hm).brace
  have hname : IsTrimmed (heading name []) := isTrimmed_heading hn (by simp)
  rw [fst_readFrom, map_text_write hn (fun m hm => (hms m hm).newline) s hs]
  cases s with
  | oneLine =>
      rw [Spelling.lines, filter_counts_cons (isTrimmed_whole hn ms) (counts_whole _ _),
        statements_whole hn hbraces]
      exact (List.append_nil _).symm ▸ describes_declare _ _
  | oneLineBelow =>
      have hbelow : IsTrimmed ('{' :: (listed ms ++ ['}'])) := by
        constructor
        · simp; decide
        · rw [← List.cons_append, List.getLast?_concat]; simp; decide
      rw [Spelling.lines, filter_counts_cons hname (counts_heading _ _),
        filter_counts_cons hbelow rfl, statements_brace_below hn, ← whole,
        statements_whole hn hbraces]
      exact (List.append_nil _).symm ▸ describes_declare _ _
  | block =>
      have hopen : IsTrimmed (heading name [' ', '{']) := isTrimmed_heading hn (by simp; decide)
      rw [Spelling.lines, filter_counts_cons hopen (counts_heading _ _), statements_block hn hms]
      exact describes_declare _ _
  | blockBelow =>
      have hbrace : IsTrimmed ['{'] := ⟨by simp; decide, by simp; decide⟩
      rw [Spelling.lines, filter_counts_cons hname (counts_heading _ _),
        filter_counts_cons hbrace rfl, statements_brace_below hn, statements_block hn hms]
      exact describes_declare _ _
  | repeated =>
      have htexts (texts : List (List Char)) :
          ((Spelling.lines name texts .repeated).map trim).filter counts =
            Spelling.lines name texts .repeated := by
        induction texts with
        | nil => rfl
        | cons m texts ih =>
            rw [Spelling.lines, List.map_cons,
              filter_counts_cons (isTrimmed_whole hn [m]) (counts_whole _ _)]
            exact congrArg (_ :: ·) ih
      rw [htexts]
      exact describes_repeated hn hbraces (hs rfl)

def classNode {α : Type} [Scalar α] (id name : String) (ms : List (List Char)) : Node α :=
  let c := collect (membersIn ms)
  let size : α × α := Sketch.Item.classSize name c
  ⟨id, .classBox, 0, 0, size.1, size.2, name, some (.members c)⟩

/-- However a class is written, it is read as the same node. -/
theorem parseWith_spelling {α : Type} [Scalar α] (ids : IdSupply) (hn : IsName isNameChar name)
    (hms : ∀ m ∈ ms, IsMemberLine m) (s : Spelling) (hs : s = .repeated → ms ≠ []) :
    ∃ (d : Diagram α) (rest : IdSupply), parseWith .classes (s.write name ms) ids = .ok (d, rest) ∧
      d.nodes = [classNode (ids.next "node").1 (String.ofList name) ms] ∧ d.edges = [] :=
  ⟨_, _, (describes_write hn hms s hs).parseWith_eq ids, rfl, rfl⟩

def memberLines : List (List Char) :=
  ["+id: u64".toList, "???".toList, "  close(); open ( at , by): bool ".toList, [], "#note:".toList,
    "-owner: map<a:b>".toList]

theorem memberLines_spelling :
    ∃ (d e : Diagram Float32) (rest rest' : IdSupply),
      parseWith .classes (Spelling.blockBelow.write "Bank.Account".toList memberLines) .fresh =
        .ok (d, rest) ∧
      parseWith .classes (Spelling.repeated.write "Bank.Account".toList memberLines) .fresh =
        .ok (e, rest') ∧
      d.nodes = e.nodes ∧ d.nodes = [classNode "node-1" "Bank.Account" memberLines] ∧
      (collect (membersIn memberLines)).lines = ["+id: u64", "-owner: map<a:b>", "+close(): void",
        "+open(at, by): bool"] := by
  have hn : IsName isNameChar "Bank.Account".toList :=
    ⟨'B', "ank.Account".toList, rfl, by decide, List.all_eq_true.1 (by decide +kernel)⟩
  have hms : ∀ m ∈ memberLines, IsMemberLine m := by
    simp only [memberLines, List.forall_mem_cons]
    refine ⟨?_, ?_, ?_, ?_, ?_, ?_, fun _ h => absurd h List.not_mem_nil⟩
    all_goals exact ⟨by decide, by decide, by decide +kernel⟩
  obtain ⟨d, rest, hd, hnodes, -⟩ :=
    parseWith_spelling (α := Float32) .fresh hn hms .blockBelow (by decide)
  obtain ⟨e, rest', he, hnodes', -⟩ :=
    parseWith_spelling (α := Float32) .fresh hn hms .repeated (by decide)
  exact ⟨d, e, rest, rest', hd, he, hnodes.trans hnodes'.symm, hnodes, by decide +kernel⟩

end ClassText

end Drafting.Source
