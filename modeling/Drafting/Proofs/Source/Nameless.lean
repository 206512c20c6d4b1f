import Drafting.Number.Binary32
import Drafting.Proofs.Source.Outline
import Drafting.Proofs.Source.Relations
import Drafting.Proofs.Source.Grammar.UseCase

namespace Drafting

theorem Sketch.forall_mem_ensure {P : Item → Prop} {s : Sketch} (h : ∀ i ∈ s.items, P i)
    (isSame : Item → Bool) {item : Item} (hi : P item) :
    ∀ i ∈ (s.ensure isSame item).1.items, P i := by
  rw [ensure]
  cases s.items.findIdx? isSame with
  | some i => exact h
  | none => exact List.forall_mem_append.2 ⟨h, List.forall_mem_singleton.2 hi⟩

namespace Source

open Text

variable {line : Line}

def Named (s : Sketch) : Prop := ∀ i ∈ s.items, i.label ≠ ""

theorem named_empty : Named .empty := fun _ h => absurd h List.not_mem_nil

theorem Named.ensure {s : Sketch} (h : Named s) (isSame : Sketch.Item → Bool)
    {item : Sketch.Item} (hi : item.label ≠ "") : Named (s.ensure isSame item).1 :=
  Sketch.forall_mem_ensure h isSame hi

theorem ofList_ne_empty {s name : List Char} (h : nonempty? s = some name) :
    String.ofList name ≠ "" := by
  rw [Ne, String.ofList_eq_empty_iff]
  exact (nonempty?_eq_some_iff.1 h).2

namespace Flow

def Statement.labels : Statement → List String
  | .title _ => []
  | .chain names _ => names

theorem ne_empty_of_statement? {statement : Statement} (h : statement? line = some statement) :
    ∀ name ∈ statement.labels, name ≠ "" := by
  rw [statement?] at h
  split at h
  next t ht =>
    cases h
    simp [Statement.labels]
  next =>
    dsimp only at h
    rw [Option.ite_none_left_eq_some, Bool.or_eq_true, not_or, Bool.not_eq_true] at h
    obtain ⟨⟨hnames, -⟩, he⟩ := h
    cases he
    refine List.forall_mem_map.2 fun name hn => ?_
    rw [Ne, String.ofList_eq_empty_iff]
    simpa using List.any_eq_false.1 hnames name hn

theorem named_ensureAll {s : Sketch} (h : Named s) (shape : String → NodeKind)
    {names : List String} (hn : ∀ name ∈ names, name ≠ "") :
    Named (ensureAll shape s names).1 := by
  induction names generalizing s with
  | nil => exact h
  | cons name names ih =>
      obtain ⟨hname, hnames⟩ := List.forall_mem_cons.1 hn
      exact ih (h.ensure _ hname) hnames

theorem named_apply {s : Sketch} (h : Named s) (shape : String → NodeKind)
    {statement : Statement} (hn : ∀ name ∈ statement.labels, name ≠ "") :
    Named (apply shape s statement) := by
  cases statement with
  | title t => exact h
  | chain names label => exact named_ensureAll h shape hn

end Flow

namespace Conversation

def Statement.labels : Statement → List String
  | .message source target _ _ => [source, target]
  | .declare name => [name]
  | .title _ => []

theorem ne_empty_of_statement? {statement : Statement} (h : statement? line = some statement) :
    ∀ name ∈ statement.labels, name ≠ "" := by
  rw [statement?] at h
  dsimp only at h
  split at h
  next source kind target _ =>
    simp only [Option.bind_eq_bind, Option.bind_eq_some_iff, Option.some_inj] at h
    obtain ⟨source, hs, target, ht, rfl⟩ := h
    simp only [Statement.labels, List.forall_mem_cons]
    exact ⟨ofList_ne_empty hs, ofList_ne_empty ht, fun _ h => absurd h List.not_mem_nil⟩
  next =>
    split at h
    next name hd =>
      cases h
      simp only [declared?, Option.bind_eq_bind, Option.bind_eq_some_iff] at hd
      obtain ⟨_, _, _, _, hn⟩ := hd
      exact List.forall_mem_singleton.2 (ofList_ne_empty hn)
    next =>
      obtain ⟨t, -, rfl⟩ := Option.map_eq_some_iff.1 h
      simp [Statement.labels]

theorem named_apply {s : Sketch} (h : Named s) {statement : Statement}
    (hn : ∀ name ∈ statement.labels, name ≠ "") : Named (apply s statement) := by
  cases statement with
  | message source target kind text =>
      obtain ⟨hs, ht⟩ : source ≠ "" ∧ target ≠ "" := by simpa [Statement.labels] using hn
      exact (h.ensure _ hs).ensure _ ht
  | declare name => exact h.ensure _ (hn name List.mem_cons_self)
  | title t => exact h

end Conversation

theorem ClassText.named_sketch (lines : List Line) :
    Named (sketch (readFrom .outside lines).1) := by
  intro item hi
  have hm : item.label ∈ declared (headings .outside lines) := by
    rw [← names_classTable_readFrom, names_classTable, ← labels_sketch]
    exact List.mem_map_of_mem hi
  obtain ⟨⟨name, parent⟩, hheading, he⟩ := List.mem_map.1 (List.mem_eraseDups.1 hm)
  obtain ⟨text, -, htext⟩ := List.mem_filterMap.1 hheading
  obtain ⟨c, hd, hc⟩ := Option.map_eq_some_iff.1 htext
  obtain ⟨_, _, _, _, ⟨first, rest, rfl, -⟩, -, -⟩ := declaration?_eq_some_iff.1 hd
  cases hc
  rw [← he, Ne, String.ofList_eq_empty_iff]
  exact List.cons_ne_nil first rest

theorem Outline.named_sketch (lines : List Line) :
    Named (sketch (readLines entry? lines).1) := by
  intro item hi
  have hm : item.label ∈ (readLines entry? lines).1.map Entry.label := by
    rw [← map_label_items]
    exact List.mem_map_of_mem hi
  obtain ⟨e, he, hlabel⟩ := List.mem_map.1 hm
  obtain ⟨line, -, hline⟩ := List.mem_filterMap.1 he
  obtain ⟨label, hl, rfl⟩ := Option.map_eq_some_iff.1 hline
  exact hlabel ▸ ofList_ne_empty hl

/-- In every other language, nodes have names. -/
theorem named_read {kind : DiagramKind} (h : kind ≠ .useCase) (lines : List Line) :
    Named (read kind lines).sketch := by
  have hflow (shape : String → NodeKind) :
      Named (Flow.sketch shape (readLines Flow.statement? lines).1) := by
    refine List.foldlRecOn _ _ named_empty fun s hs statement hm => ?_
    obtain ⟨line, -, hline⟩ := List.mem_filterMap.1 hm
    exact Flow.named_apply hs shape (Flow.ne_empty_of_statement? hline)
  cases kind with
  | classes => exact ClassText.named_sketch lines
  | flow => exact hflow _
  | generic => exact hflow _
  | sequence =>
      refine List.foldlRecOn (motive := Named) _ _ named_empty fun s hs statement hm => ?_
      obtain ⟨line, -, hline⟩ := List.mem_filterMap.1 hm
      exact Conversation.named_apply hs (Conversation.ne_empty_of_statement? hline)
  | mindmap => exact Outline.named_sketch lines
  | useCase => exact absurd rfl h

namespace UseCase

variable {s : Sketch} {text name actor : List Char} {statement : Statement}
  {key : NodeKind × String}

inductive Mentions : List Char → List Char → Prop
  | source {text source target : List Char} (h : Relates text source target) :
      Mentions text source
  | target {text source target : List Char} (h : Relates text source target) :
      Mentions text target
  | linked {text actor name : List Char} (h : Links text actor name) (ha : unquote actor ≠ []) :
      Mentions text name
  | alone {name : List Char} (h : IsCaseName name) : Mentions ('(' :: (name ++ [')'])) name

def Statement.keys : Statement → List (NodeKind × String)
  | .relation source target _ _ => [(.useCase, source), (.useCase, target)]
  | .link a name _ => [(.actor, a), (.useCase, name)]
  | .actor name => [(.actor, name)]
  | .useCase name => [(.useCase, name)]
  | .title _ => []

def keys (s : Sketch) : List (NodeKind × String) := s.items.map fun i => (i.kind, i.label)

theorem mem_keys_ensure (kind : NodeKind) (s : Sketch) (name : String) :
    key ∈ keys (ensure kind s name).1 ↔ key ∈ keys s ∨ key = (kind, name) := by
  rw [ensure, Sketch.ensure]
  cases hf : s.items.findIdx? fun item => item.kind = kind ∧ item.label = name with
  | none => simp [keys]
  | some i =>
      obtain ⟨hi, hsame, -⟩ := List.findIdx?_eq_some_iff_getElem.1 hf
      have hm : (kind, name) ∈ keys s := by
        obtain ⟨hk, hn⟩ := of_decide_eq_true hsame
        exact List.mem_map.2 ⟨_, List.getElem_mem hi, by rw [hk, hn]⟩
      refine ⟨.inl, fun h => h.elim id ?_⟩
      rintro rfl
      exact hm

theorem mem_keys_apply (s : Sketch) (statement : Statement) :
    key ∈ keys (apply s statement) ↔ key ∈ keys s ∨ key ∈ statement.keys := by
  cases statement with
  | relation source target kind label =>
      refine (mem_keys_ensure .useCase (ensure .useCase s source).1 target).trans ?_
      simp [mem_keys_ensure, Statement.keys, or_assoc]
  | link actor useCase label =>
      refine (mem_keys_ensure .useCase (ensure .actor s actor).1 useCase).trans ?_
      simp [mem_keys_ensure, Statement.keys, or_assoc]
  | actor name => simp [apply, mem_keys_ensure, Statement.keys]
  | useCase name => simp [apply, mem_keys_ensure, Statement.keys]
  | title t => simp [apply, Sketch.titled, keys, Statement.keys]

theorem mem_keys_sketch (statements : List Statement) :
    key ∈ keys (sketch statements) ↔ ∃ statement ∈ statements, key ∈ statement.keys := by
  induction statements using List.reverseRecOn with
  | nil => simp [sketch, keys, Sketch.empty]
  | append_singleton statements statement ih =>
      rw [sketch, List.foldl_concat, ← sketch, mem_keys_apply, ih]
      simp [or_and_right, exists_or]

theorem statement?_of_relates {source target : List Char}
    (h : Relates line.text source target) :
    ∃ kind label, statement? line =
      some (.relation (String.ofList (trim source)) (String.ofList (trim target)) kind label) := by
  obtain ⟨kind, label, hr⟩ := h.relation?
  exact ⟨kind, label, by rw [statement?, hr]⟩

theorem statement?_of_links (h : Links line.text actor name) (ha : unquote actor ≠ []) :
    ∃ label, statement? line =
      some (.link (String.ofList (unquote actor)) (String.ofList (trim name)) label) := by
  obtain ⟨c, s, -, hhead, hc⟩ := IsLink.exists_head ⟨name, h⟩
  have hr : relation? line.text = none := by
    rw [← Option.not_isSome_iff_eq_none, isSome_relation?_iff]
    exact fun hr => hc (Option.some.inj (hhead.symm.trans hr.head?))
  obtain ⟨label, hl⟩ := exists_linkParts?_eq_iff.2 h
  refine ⟨label.map String.ofList, ?_⟩
  rw [statement?, hr, hl]
  dsimp only
  rw [nonempty?_eq_some_iff.2 ⟨rfl, ha⟩]
  rfl

theorem statement?_of_isCaseName (h : IsCaseName name) (hl : line.text = '(' :: (name ++ [')'])) :
    statement? line = some (.useCase (String.ofList (trim name))) := by
  have hp : parenthesised? line.text = some (name, []) := parenthesised?_eq_some_iff.2 ⟨hl, h⟩
  have hr : relation? line.text = none := by
    rw [relation?, hp]
    rfl
  have hlink : linkParts? line.text = none := by
    refine Option.eq_none_iff_forall_ne_some.2 fun parts hparts => ?_
    obtain ⟨actor, other, label⟩ := parts
    obtain ⟨c, s, -, hhead, hc⟩ := (exists_linkParts?_iff.1 ⟨other, label, hparts⟩).exists_head
    rw [hl, List.head?_cons, Option.some_inj] at hhead
    exact hc hhead.symm
  have ha : declaredActor? line.text = none := by
    rw [← Option.not_isSome_iff_eq_none, isSome_declaredActor?_iff]
    intro hd
    obtain ⟨c, t, ht, hc⟩ := hd.exists_head
    rw [hl] at ht
    obtain ⟨rfl, -⟩ := List.cons.inj ht
    exact absurd hc (by decide)
  rw [statement?, hr, hlink]
  dsimp only
  rw [ha, declaredCase?, hp]
  rfl

inductive Says (text : List Char) : Statement → Prop
  | relation {source target : List Char} (h : Relates text source target) (kind : EdgeKind)
      (label : Option String) :
      Says text (.relation (String.ofList (trim source)) (String.ofList (trim target)) kind label)
  | link {actor name : List Char} (h : Links text actor name) (ha : unquote actor ≠ [])
      (label : Option String) :
      Says text (.link (String.ofList (unquote actor)) (String.ofList (trim name)) label)
  | actor {name : List Char} (hn : name ≠ []) : Says text (.actor (String.ofList name))
  | useCase {name : List Char} (h : IsCaseName name) (ht : text = '(' :: (name ++ [')'])) :
      Says text (.useCase (String.ofList (trim name)))
  | title (t : String) : Says text (.title t)

theorem says_of_statement? (h : statement? line = some statement) : Says line.text statement := by
  rw [statement?] at h
  split at h
  next hr =>
    cases h
    obtain ⟨source, target, kind, label, hrelates, rfl⟩ := relates_of_relation? hr
    exact .relation hrelates kind label
  next =>
    split at h
    next actor name label hl =>
      obtain ⟨a, ha, rfl⟩ := Option.map_eq_some_iff.1 h
      obtain ⟨rfl, hne⟩ := nonempty?_eq_some_iff.1 ha
      exact .link (exists_linkParts?_eq_iff.1 ⟨label, hl⟩) hne _
    next =>
      rw [Option.or_eq_some_iff, Option.or_eq_some_iff] at h
      rcases h with ha | ⟨-, hc | ⟨-, ht⟩⟩
      · simp only [declaredActor?, Option.bind_eq_bind, Option.bind_eq_some_iff,
          Option.some_inj] at ha
        obtain ⟨_, _, _, _, name, hn, rfl⟩ := ha
        exact .actor (nonempty?_eq_some_iff.1 hn).2
      · rw [declaredCase?] at hc
        split at hc
        next name hp =>
          cases hc
          obtain ⟨htext, hn⟩ := parenthesised?_eq_some_iff.1 hp
          exact .useCase hn htext
        next => cases hc
      · obtain ⟨t, -, rfl⟩ := Option.map_eq_some_iff.1 ht
        exact .title _

theorem Says.exists_mentions (h : Says text statement) {c : String}
    (hc : (.useCase, c) ∈ statement.keys) :
    ∃ name, Mentions text name ∧ String.ofList (trim name) = c := by
  cases h with
  | relation h =>
      rcases List.mem_pair.1 hc with hc | hc
      · exact ⟨_, .source h, (Prod.mk.inj hc).2.symm⟩
      · exact ⟨_, .target h, (Prod.mk.inj hc).2.symm⟩
  | link h ha =>
      rcases List.mem_pair.1 hc with hc | hc
      · cases (Prod.mk.inj hc).1
      · exact ⟨_, .linked h ha, (Prod.mk.inj hc).2.symm⟩
  | actor => cases (Prod.mk.inj (List.mem_singleton.1 hc)).1
  | useCase h ht => exact ⟨_, ht ▸ .alone h, (Prod.mk.inj (List.mem_singleton.1 hc)).2.symm⟩
  | title => cases hc

/-- No actor is without a name. -/
theorem Says.eq_useCase (h : Says text statement) {kind : NodeKind}
    (hk : (kind, "") ∈ statement.keys) : kind = .useCase := by
  cases h with
  | relation =>
      rcases List.mem_pair.1 hk with hk | hk
      · exact (Prod.mk.inj hk).1
      · exact (Prod.mk.inj hk).1
  | link h ha =>
      rcases List.mem_pair.1 hk with hk | hk
      · exact absurd (String.ofList_eq_empty_iff.1 (Prod.mk.inj hk).2.symm) ha
      · exact (Prod.mk.inj hk).1
  | actor hn =>
      have hempty := (Prod.mk.inj (List.mem_singleton.1 hk)).2.symm
      exact absurd (String.ofList_eq_empty_iff.1 hempty) hn
  | useCase => exact (Prod.mk.inj (List.mem_singleton.1 hk)).1
  | title => cases hk

theorem Mentions.exists_statement (h : Mentions line.text name) :
    ∃ statement, statement? line = some statement ∧
      (.useCase, String.ofList (trim name)) ∈ statement.keys := by
  obtain ⟨number, indent, text⟩ := line
  cases h with
  | source h =>
      obtain ⟨kind, label, hs⟩ := statement?_of_relates h
      exact ⟨_, hs, List.mem_pair.2 (.inl rfl)⟩
  | target h =>
      obtain ⟨kind, label, hs⟩ := statement?_of_relates h
      exact ⟨_, hs, List.mem_pair.2 (.inr rfl)⟩
  | linked h ha =>
      obtain ⟨label, hs⟩ := statement?_of_links h ha
      exact ⟨_, hs, List.mem_pair.2 (.inr rfl)⟩
  | alone h => exact ⟨_, statement?_of_isCaseName h rfl, List.mem_singleton.2 rfl⟩

/-- What is read in a line asks for the use cases that the line names, trimmed. -/
theorem exists_case_iff (line : Line) (c : String) :
    (∃ statement, statement? line = some statement ∧ (.useCase, c) ∈ statement.keys) ↔
      ∃ name, Mentions line.text name ∧ String.ofList (trim name) = c := by
  constructor
  · rintro ⟨statement, h, hc⟩
    exact (says_of_statement? h).exists_mentions hc
  · rintro ⟨name, hm, rfl⟩
    exact hm.exists_statement

theorem mem_keys_read (lines : List Line) :
    key ∈ keys (read .useCase lines).sketch ↔
      ∃ line ∈ lines, ∃ statement, statement? line = some statement ∧ key ∈ statement.keys := by
  refine (mem_keys_sketch _).trans ?_
  simp only [List.mem_filterMap]
  constructor
  · rintro ⟨statement, ⟨line, hl, hs⟩, hk⟩
    exact ⟨line, hl, statement, hs, hk⟩
  · rintro ⟨line, hl, statement, hs, hk⟩
    exact ⟨statement, ⟨line, hl, hs⟩, hk⟩

theorem eq_useCase_of_nameless {kind : NodeKind} {lines : List Line}
    (h : (kind, "") ∈ keys (read .useCase lines).sketch) : kind = .useCase := by
  obtain ⟨line, -, statement, hs, hk⟩ := (mem_keys_read lines).1 h
  exact (says_of_statement? hs).eq_useCase hk

theorem nameless_mem_keys_iff (lines : List Line) :
    (.useCase, "") ∈ keys (read .useCase lines).sketch ↔
      ∃ line ∈ lines, ∃ name, Mentions line.text name ∧ Blanks name := by
  simp only [mem_keys_read, exists_case_iff, String.ofList_eq_empty_iff, trim_eq_nil_iff]

end UseCase

section

open UseCase (Mentions)

variable {α : Type} [Scalar α] {kind : DiagramKind} {text : List Char} {ids rest : IdSupply}
  {d : Diagram α}

theorem map_key_nodes (h : parseWith .useCase text ids = .ok (d, rest)) :
    d.nodes.map (fun n => (n.kind, n.label)) =
      UseCase.keys (read .useCase (sourceLines comments text)).sketch := by
  obtain ⟨-, -, rfl⟩ := parseWith_eq_ok h
  exact Sketch.map_nodes_toDiagram fun _ _ => rfl

theorem label_ne_empty (hk : kind ≠ .useCase) (h : parseWith kind text ids = .ok (d, rest)) :
    ∀ n ∈ d.nodes, n.label ≠ "" := by
  obtain ⟨-, -, rfl⟩ := parseWith_eq_ok h
  intro n hn
  obtain ⟨item, hi, id, rfl⟩ := Sketch.exists_item_of_mem_nodes hn
  exact named_read hk _ item hi

/-- A node without a name is a use case whose name is blank between its parentheses, and there is
one if and only if a line of a use case text names such a use case. -/
theorem label_empty_iff (h : parseWith kind text ids = .ok (d, rest)) :
    (∀ n ∈ d.nodes, n.label = "" → kind = .useCase ∧ n.kind = .useCase) ∧
      ((∃ n ∈ d.nodes, n.label = "") ↔ kind = .useCase ∧
        ∃ line ∈ sourceLines comments text, ∃ name, Mentions line.text name ∧ Blanks name) := by
  by_cases hk : kind = .useCase
  case neg =>
    have hlabel := label_ne_empty hk h
    refine ⟨fun n hn he => absurd he (hlabel n hn), ?_, fun h => absurd h.1 hk⟩
    rintro ⟨n, hn, he⟩
    exact absurd he (hlabel n hn)
  case pos =>
    subst hk
    have hkeys := map_key_nodes h
    have hcase : ∀ n ∈ d.nodes, n.label = "" → n.kind = .useCase := by
      intro n hn he
      have hm : (n.kind, n.label) ∈ d.nodes.map fun n => (n.kind, n.label) :=
        List.mem_map_of_mem hn
      rw [hkeys, he] at hm
      exact UseCase.eq_useCase_of_nameless hm
    refine ⟨fun n hn he => ⟨rfl, hcase n hn he⟩, ?_⟩
    rw [← UseCase.nameless_mem_keys_iff, ← hkeys, List.mem_map]
    constructor
    · rintro ⟨n, hn, he⟩
      exact ⟨rfl, n, hn, Prod.ext (hcase n hn he) he⟩
    · rintro ⟨-, n, hn, he⟩
      exact ⟨n, hn, (Prod.mk.inj he).2⟩

def blankCase : List Char := "(Browse)\n( )".toList

def blankCaseDiagram : Diagram Float32 where
  kind := .useCase
  nodes :=
    [⟨"node-1", .useCase, 0, 0, 140, 60, "Browse", none⟩,
      ⟨"node-2", .useCase, 0, 0, 140, 60, "", none⟩]
  edges := []
  title := none
  skipped := []
  unresolved := []

theorem blankCase_mentioned :
    ∃ rest, parseWith .useCase blankCase .fresh = .ok (blankCaseDiagram, rest) ∧
      (∀ n ∈ blankCaseDiagram.nodes, n.label = "" → n.kind = .useCase) ∧
      (∃ line ∈ sourceLines comments blankCase, ∃ name, Mentions line.text name ∧ Blanks name) := by
  have hparse : ∃ rest, parseWith .useCase blankCase .fresh = .ok (blankCaseDiagram, rest) :=
    ⟨_, rfl⟩
  obtain ⟨rest, hparse⟩ := hparse
  obtain ⟨hcase, hiff⟩ := label_empty_iff hparse
  refine ⟨rest, hparse, fun n hn he => (hcase n hn he).2, (hiff.1 ?_).2⟩
  exact ⟨_, List.mem_cons_of_mem _ List.mem_cons_self, rfl⟩

/-- The line of blanks in parentheses is not passed over: it makes a node without a name. -/
theorem blankCase_label_empty :
    (∃ rest, parseWith .useCase blankCase .fresh = .ok (blankCaseDiagram, rest)) ∧
      blankCaseDiagram.skipped = [] ∧ (∃ n ∈ blankCaseDiagram.nodes, n.label = "") ∧
      ¬ ∀ (kind : DiagramKind) (text : List Char) (ids rest : IdSupply) (d : Diagram Float32),
        parseWith kind text ids = .ok (d, rest) → ∀ n ∈ d.nodes, n.label ≠ "" := by
  have hmem : (⟨"node-2", .useCase, 0, 0, 140, 60, "", none⟩ : Node Float32) ∈
      blankCaseDiagram.nodes := List.mem_cons_of_mem _ List.mem_cons_self
  refine ⟨⟨_, rfl⟩, rfl, ⟨_, hmem, rfl⟩, fun h => ?_⟩
  exact h .useCase blankCase .fresh _ blankCaseDiagram rfl _ hmem rfl

end

end Source

end Drafting
