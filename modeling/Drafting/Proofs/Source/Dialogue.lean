import Drafting.Number.Binary32
import Drafting.Proofs.Source.Chain
import Drafting.Proofs.Source.Grammar.Conversation

namespace Drafting.Source.Conversation

open Text
open Drafting.Source.Flow (Shaft Chain IsFlowName IsStop not_arrow_prefix_append
  not_arrow_infix_of_not_mem unquote_padded)

variable {name s : List Char}

section

theorem splitArrow?_cons {c : Char} (h : ¬ "->".toList <+: c :: s)
    (h' : ¬ "-->".toList <+: c :: s) :
    splitArrow? (c :: s) =
      (splitArrow? s).map fun (before, kind, after) => (c :: before, kind, after) := by
  rw [splitArrow?.eq_def]
  split
  next he => cases he
  next he =>
    cases he
    exact absurd ⟨_, rfl⟩ h'
  next he =>
    cases he
    exact absurd ⟨_, rfl⟩ h
  next he =>
    cases he
    rfl

/-- A text without an arrow stands whole in front of the first one. -/
theorem splitArrow?_append (h : ¬ "->".toList <:+: name) (hs : IsStop s) :
    splitArrow? (name ++ s) =
      (splitArrow? s).map fun (before, kind, after) => (name ++ before, kind, after) := by
  induction name with
  | nil => exact Option.map_id'.symm
  | cons c name ih =>
      have hname : ¬ "->".toList <:+: name := fun hi =>
        h (hi.trans (List.suffix_cons c name).isInfix)
      have hshort : ¬ "->".toList <+: c :: (name ++ s) := not_arrow_prefix_append h hs
      have hlong : ¬ "-->".toList <+: c :: (name ++ s) := fun hp =>
        not_arrow_prefix_append hname hs (List.cons_prefix_cons.1 hp).2
      rw [List.cons_append, splitArrow?_cons hshort hlong, ih hname, Option.map_map]
      rfl

def kindOf : Shaft → EdgeKind
  | .short => .sync
  | .long => .async

theorem splitArrow?_shaft (shaft : Shaft) (s : List Char) :
    splitArrow? (' ' :: (shaft.text ++ s)) = some ([' '], kindOf shaft, s) := by
  cases shaft <;> rfl

theorem ends?_eq_none (h : ¬ "->".toList <:+: s) : ends? s = none := by
  cases s with
  | nil => rfl
  | cons c s =>
      have hs : ¬ "->".toList <:+: s := fun hi => h (hi.trans (List.suffix_cons c s).isInfix)
      have hnone : splitArrow? (s ++ []) = none := splitArrow?_append hs (by simp [IsStop])
      rw [List.append_nil] at hnone
      rw [ends?, hnone]

theorem ends?_written {source target : List Char} (hn : IsFlowName source) (shaft : Shaft) :
    ends? (source ++ ' ' :: (shaft.text ++ ' ' :: target)) =
      some (source ++ [' '], kindOf shaft, ' ' :: target) := by
  obtain ⟨c, s, rfl⟩ := List.exists_cons_of_ne_nil hn.ne_nil
  have hs : ¬ "->".toList <:+: s := fun hi => hn.arrow (hi.trans (List.suffix_cons c s).isInfix)
  rw [List.cons_append, ends?, splitArrow?_append hs (by simp [IsStop]), splitArrow?_shaft]
  rfl

end

section

inductive Role where
  | participant
  | actor

def Role.text : Role → List Char
  | .participant => "participant".toList
  | .actor => "actor".toList

structure Message where
  source : List Char
  shaft : Shaft
  target : List Char
  text : Option (List Char)

inductive Remark where
  | declaration (role : Role) (name : List Char)
  | message (m : Message)

namespace Message

variable (m : Message)

def chain : Chain := ⟨m.source, [(m.shaft, m.target)], none⟩

def write : List Char :=
  m.chain.body ++ match m.text with
    | none => []
    | some text => ": ".toList ++ text

def label : Option (List Char) := (m.text.map trim).filter fun t => !t.isEmpty

def arrow (i : Nat) : Arrow :=
  ⟨String.ofList m.source, String.ofList m.target, kindOf m.shaft, m.label.map String.ofList,
    some i⟩

end Message

namespace Remark

def names : Remark → List (List Char)
  | .declaration _ name => [name]
  | .message m => [m.source, m.target]

def message? : Remark → Option Message
  | .declaration _ _ => none
  | .message m => some m

def write : Remark → List Char
  | .declaration role name => role.text ++ ' ' :: name
  | .message m => m.write

def said : Remark → Statement
  | .declaration _ name => .declare (String.ofList name)
  | .message m => .message (String.ofList m.source) (String.ofList m.target) (kindOf m.shaft)
      (m.label.map String.ofList)

structure IsWritable (r : Remark) : Prop where
  names : ∀ name ∈ r.names, IsFlowName name
  text : ∀ m ∈ r.message?, ∀ text ∈ m.text, '\n' ∉ text

end Remark

variable {m : Message} {r : Remark} {role : Role}

theorem Message.isWritable_chain (h : (Remark.message m).IsWritable) : m.chain.IsWritable where
  names := h.names
  label label hl := by cases hl
  arrow _ := rfl

theorem Message.body_chain (m : Message) :
    m.chain.body = m.source ++ ' ' :: (m.shaft.text ++ ' ' :: m.target) := by
  simp [chain, Chain.body, Chain.hop]

/-- A message is cut behind its names. Blanks at the end of the line go with what is said. -/
theorem Message.exists_cut_trim_write (h : (Remark.message m).IsWritable) :
    ∃ text, cut ':' (trim m.write) = (m.chain.body, text) ∧ text.map trim = m.text.map trim := by
  have hc := isWritable_chain h
  have hcolon := hc.not_mem_body (x := ':') (by decide)
  rw [write]
  cases m.text with
  | none =>
      refine ⟨none, ?_, rfl⟩
      dsimp only
      rw [List.append_nil, hc.isTrimmed_body.trim_eq, cut_of_not_mem hcolon]
  | some text =>
      obtain ⟨t, ht, htrim⟩ :=
        exists_trim_append_cons_eq hc.head_body (c := ':') (by decide) (' ' :: text)
      refine ⟨some t, ?_, ?_⟩
      · exact cut_eq_some_iff.2 ⟨ht, hcolon⟩
      · exact congrArg some (htrim.trans (trim_append blanks_space text))

theorem statement?_message (h : (Remark.message m).IsWritable) {line : Line}
    (hl : line.text = trim m.write) : statement? line = some (Remark.message m).said := by
  obtain ⟨hs, ht⟩ : IsFlowName m.source ∧ IsFlowName m.target :=
    ⟨h.names _ (by simp [Remark.names]), h.names _ (by simp [Remark.names])⟩
  obtain ⟨text, hcut, htext⟩ := Message.exists_cut_trim_write h
  have hsource : unquote (m.source ++ [' ']) = m.source :=
    unquote_padded hs blanks_nil blanks_space
  have htarget : unquote (' ' :: m.target) = m.target := by
    simpa using unquote_padded ht blanks_space blanks_nil
  have hlabel : (text.bind fun t => nonempty? (trim t)) = m.label := by
    rw [Message.label, ← htext]
    cases text with
    | none => rfl
    | some t => cases hb : trim t <;> simp [nonempty?, hb, Option.filter]
  rw [statement?, hl, hcut]
  dsimp only
  rw [m.body_chain, ends?_written hs]
  dsimp only
  rw [hsource, htarget, nonempty?_eq_some_iff.2 ⟨rfl, hs.ne_nil⟩,
    nonempty?_eq_some_iff.2 ⟨rfl, ht.ne_nil⟩, hlabel]
  rfl

theorem Role.caseless?_or (role : Role) {text rest : List Char}
    (h : caseless? role.text text = some rest) :
    (caseless? "participant".toList text).or (caseless? "actor".toList text) = some rest := by
  cases role with
  | participant =>
      have hp : caseless? "participant".toList text = some rest := h
      rw [hp, Option.some_or]
  | actor =>
      have ha : caseless? "actor".toList text = some rest := h
      have hp : caseless? "participant".toList text = none := caseless?_eq_none ha (by decide)
      rw [hp, ha, Option.none_or]

theorem declared?_written (hn : IsFlowName name) (role : Role) :
    declared? (role.text ++ ' ' :: name) = some name := by
  have hword : caseless? role.text (role.text ++ ' ' :: name) = some (' ' :: name) :=
    caseless?_eq_some_iff.2 ⟨role.text, rfl, by cases role <;> decide +kernel⟩
  have hgap : gap? (' ' :: name) = some name :=
    gap?_eq_some_iff.2 ⟨⟨[' '], by simp, blanks_space, rfl⟩, hn.trimmed.head⟩
  have hunquote : unquote name = name := by simpa using unquote_padded hn blanks_nil blanks_nil
  rw [declared?, role.caseless?_or hword]
  simp only [Option.bind_eq_bind, Option.bind_some, hgap, hunquote]
  exact nonempty?_eq_some_iff.2 ⟨rfl, hn.ne_nil⟩

theorem Role.not_mem_text (role : Role) {c : Char} (hc : c ∈ ['-', ':', '\n']) : c ∉ role.text := by
  simp only [List.mem_cons, List.not_mem_nil, or_false] at hc
  rcases hc with rfl | rfl | rfl <;> cases role <;> decide

theorem Remark.isTrimmed_declaration (hn : IsFlowName name) (role : Role) :
    IsTrimmed (declaration role name).write := by
  have hsplit : (declaration role name).write = (role.text ++ [' ']) ++ name := by simp [write]
  rw [hsplit]
  refine .append ?_ hn.trimmed hn.ne_nil (by simp)
  cases role <;> exact fun c hc => by cases hc; decide

theorem statement?_declaration (hn : IsFlowName name) {line : Line}
    (hl : line.text = (Remark.declaration role name).write) :
    statement? line = some (Remark.declaration role name).said := by
  have hcolon : ':' ∉ role.text ++ ' ' :: name := by
    simp [role.not_mem_text, hn.plain]
  have harrow : ¬ "->".toList <:+: role.text ++ ' ' :: name := by
    have hdash : '-' ∉ role.text ++ [' '] := by simp [role.not_mem_text]
    simpa using not_arrow_infix_of_not_mem hdash hn.arrow
  rw [statement?, hl, Remark.write, cut_of_not_mem hcolon]
  dsimp only
  rw [ends?_eq_none harrow, declared?_written hn]
  rfl

namespace Remark.IsWritable

theorem statement? (h : r.IsWritable) {line : Line} (hl : line.text = trim r.write) :
    statement? line = some r.said := by
  cases r with
  | message m => exact statement?_message h hl
  | declaration role name =>
      have hn : IsFlowName name := h.names name (by simp [Remark.names])
      rw [(isTrimmed_declaration hn role).trim_eq] at hl
      exact statement?_declaration hn hl

theorem exists_head_write (h : r.IsWritable) : ∃ c s, r.write = c :: s ∧ isBlank c = false := by
  cases r with
  | message m =>
      have hc := Message.isWritable_chain h
      obtain ⟨c, s, hs⟩ := List.exists_cons_of_ne_nil hc.body_ne_nil
      have hwrite : (message m).write = c :: (s ++ _) := congrArg (· ++ _) hs
      exact ⟨c, _, hwrite, hc.head_body c (by simp [hs])⟩
  | declaration role name => cases role <;> exact ⟨_, _, rfl, by decide⟩

theorem newline_not_mem_write (h : r.IsWritable) : '\n' ∉ r.write := by
  cases r with
  | message m =>
      have hbody := (Message.isWritable_chain h).not_mem_body (x := '\n') (by decide)
      rw [write, Message.write]
      cases ht : m.text with
      | none => simpa using hbody
      | some text => simpa [hbody] using h.text m rfl text ht
  | declaration role name =>
      have hn : IsFlowName name := h.names name (by simp [Remark.names])
      simp [write, role.not_mem_text, hn.plain]

theorem isContent (h : r.IsWritable) (hmarks : ∀ mark ∈ comments, ¬ mark <+: r.write) :
    IsContent comments (trim r.write) := by
  obtain ⟨c, s, hw, hc⟩ := h.exists_head_write
  obtain ⟨gap, -, he⟩ := exists_append_eq_of_head (s := r.write) (by simpa [hw] using hc)
  refine ⟨isTrimmed_trim _, List.ne_nil_of_mem (mem_trim (c := c) (by simp [hw]) hc), ?_⟩
  exact fun mark hm hp => hmarks mark hm (he ▸ hp.trans (List.prefix_append _ _))

theorem header?_eq_none (h : r.IsWritable) : header? (trim r.write) = none := by
  cases r with
  | message m =>
      have hhead : '>' ∈ m.shaft.text := by cases m.shaft <;> decide
      have hm : '>' ∈ m.write := by simp [Message.write, m.body_chain, hhead]
      exact header?_eq_none_of_mem (mem_trim hm (by decide)) (by decide) (by decide)
        (by decide +kernel) (by decide)
  | declaration role name =>
      have hn : IsFlowName name := h.names name (by simp [Remark.names])
      have hword : (role.text ++ ' ' :: name).takeWhile (fun c => !isBlank c) = role.text := by
        refine takeWhile_append_stop (List.all_eq_true.1 ?_) (by simp; decide)
        cases role <;> decide
      have hlookup : headerWords.lookup (role.text.map Char.toLower) = none := by
        cases role <;> decide +kernel
      rw [(isTrimmed_declaration hn role).trim_eq, write, header?, hword, hlookup, ite_self]

end Remark.IsWritable

end

section

open Drafting.Source.Flow (Shows)

def Remark.labels (r : Remark) : List String := r.names.map String.ofList

def arrows (remarks : List Remark) : List Arrow :=
  (remarks.filterMap Remark.message?).mapIdx fun i m => m.arrow i

theorem arrows_concat (remarks : List Remark) (r : Remark) :
    arrows (remarks ++ [r]) =
      arrows remarks ++ (r.message?.map (Message.arrow · (arrows remarks).length)).toList := by
  rw [arrows, List.filterMap_append]
  cases r with
  | declaration role name =>
      rw [show [Remark.declaration role name].filterMap Remark.message? = [] from rfl,
        List.append_nil]
      exact (List.append_nil _).symm
  | message m => simp [Remark.message?, arrows]

theorem shows_apply {s : Sketch} {names : List String} {drawn : List Arrow}
    (h : Shows (fun _ => .actor) s names drawn) (r : Remark) :
    Shows (fun _ => .actor) (apply s r.said) (names ++ r.labels)
      (drawn ++ (r.message?.map (Message.arrow · drawn.length)).toList) := by
  obtain ⟨hlists, hlabels⟩ := h.lists.ensureAll r.labels
  have hprefix := Flow.items_prefix_ensureAll (fun _ => .actor) s r.labels
  have hties := Flow.ties_ensureAll (fun _ => .actor) s r.labels
  have hold := h.map_arrow?_of_prefix hprefix
  cases r with
  | declaration role name =>
      refine ⟨hlists, ?_⟩
      have hdrawn := (congrArg (List.map _) hties).trans hold
      exact hdrawn.trans (congrArg (List.map some) (List.append_nil _).symm)
  | message m =>
      let next := (Flow.ensureAll (fun _ => .actor) s (Remark.message m).labels).1
      let i := (actor s (String.ofList m.source)).2
      let j := (actor (actor s (String.ofList m.source)).1 (String.ofList m.target)).2
      let tie : Sketch.Tie :=
        ⟨i, j, kindOf m.shaft, m.label.map String.ofList, some next.ties.length⟩
      have hsource : next.labelAt? i = some (String.ofList m.source) := (List.cons.inj hlabels).1
      have htarget : next.labelAt? j = some (String.ofList m.target) :=
        (List.cons.inj (List.cons.inj hlabels).2).1
      have hlength : next.ties.length = drawn.length := by
        have hmap := congrArg List.length hold
        rw [List.length_map, List.length_map] at hmap
        exact (congrArg List.length hties).trans hmap
      have hnew : next.arrow? tie = some (m.arrow drawn.length) := by
        rw [Sketch.arrow?, hsource, htarget]
        simp [tie, Message.arrow, hlength]
      refine ⟨hlists, ?_⟩
      calc (next.ties ++ [tie]).map next.arrow?
          = drawn.map some ++ [some (m.arrow drawn.length)] := by
            rw [List.map_append, hties, hold, List.map_singleton, hnew]
        _ = (drawn ++ [m.arrow drawn.length]).map some := by simp

theorem shows_sketch (remarks : List Remark) :
    Shows (fun _ => .actor) (sketch (remarks.map Remark.said)) (remarks.flatMap Remark.labels)
      (arrows remarks) := by
  induction remarks using List.reverseRecOn with
  | nil => exact ⟨rfl, rfl⟩
  | append_singleton remarks r ih =>
      rw [List.map_append, List.flatMap_append, List.flatMap_singleton, arrows_concat, sketch,
        List.foldl_append, ← sketch]
      exact shows_apply ih r

variable {remarks : List Remark}

structure IsDialogue (remarks : List Remark) : Prop where
  writable : ∀ r ∈ remarks, r.IsWritable
  uncommented : ∀ r ∈ remarks, ∀ mark ∈ comments, ¬ mark <+: r.write

def write (remarks : List Remark) : List Char := ['\n'].intercalate (remarks.map Remark.write)

theorem IsDialogue.readLines_eq (h : IsDialogue remarks) (hne : remarks ≠ []) :
    readLines statement? (sourceLines comments (write remarks)) =
      (remarks.map Remark.said, []) := by
  have htexts : (sourceLines comments (write remarks)).map Line.text =
      remarks.map fun r => trim r.write := by
    rw [write, map_text_sourceLines_of_lines (by simpa using hne), List.map_map]
    · rfl
    · refine List.forall_mem_map.2 fun r hr => ?_
      exact ⟨(h.writable r hr).isContent (h.uncommented r hr),
        (h.writable r hr).newline_not_mem_write⟩
    · intro raw hraw
      obtain ⟨r, hr, rfl⟩ := List.mem_map.1 (List.mem_of_mem_head? hraw)
      exact (h.writable r hr).header?_eq_none
  exact readLines_of_written htexts fun r hr line => (h.writable r hr).statement?

/-- Declarations and messages are read as the conversation that they write down, each name once and
each message in its turn, and no line is left out. -/
theorem parseWith_write_remarks {α : Type} [Scalar α] (hne : remarks ≠ [])
    (h : IsDialogue remarks) (ids : IdSupply) :
    ∃ (d : Diagram α) (rest : IdSupply), parseWith .sequence (write remarks) ids = .ok (d, rest) ∧
      d.ids.Nodup ∧
      d.nodes.map (fun n => (n.label, n.kind)) =
        (remarks.flatMap Remark.labels).eraseDups.map (fun name => (name, .actor)) ∧
      d.edges.map d.arrow? = (arrows remarks).map some ∧ d.skipped = [] := by
  have hread : read .sequence (sourceLines (marks .sequence) (write remarks)) =
      ⟨sketch (remarks.map Remark.said), [], []⟩ := by
    have hlines := h.readLines_eq hne
    simp only [read, marks, hlines]
  have hshows := shows_sketch remarks
  have hitems : (sketch (remarks.map Remark.said)).items ≠ [] := by
    obtain ⟨r, rest, rfl⟩ := List.exists_cons_of_ne_nil hne
    have hlabels : r.labels ≠ [] := by cases r <;> exact List.cons_ne_nil _ _
    rw [hshows.lists, Ne, List.map_eq_nil_iff, eraseDups_eq_nil_iff, List.flatMap_cons]
    exact List.append_ne_nil_of_left_ne_nil hlabels _
  have hparse := parseWith_eq (α := α) .sequence (write remarks) ids (by rwa [hread])
  rw [hread] at hparse
  refine ⟨_, _, hparse, Sketch.nodup_ids_toDiagram, ?_, ?_, rfl⟩
  · rw [Sketch.map_nodes_toDiagram (u := fun i => (i.label, i.kind)) fun _ _ => rfl, hshows.lists,
      List.map_map]
    rfl
  · rw [(onePerLabel_sketch _).tied.map_arrow?_edges, hshows.draws]

def messagesAndActor : List Remark :=
  [.message ⟨"actor -".toList, .long, ">b c".toList, some "x: y --> z ".toList⟩,
    .declaration .actor "Ann".toList,
    .message ⟨"Ann".toList, .short, "actor -".toList, some " ".toList⟩,
    .declaration .participant "Ann".toList,
    .message ⟨"Ann".toList, .short, "Ann".toList, none⟩]

theorem messagesAndActor_parseWith_write :
    messagesAndActor ≠ [] ∧ IsDialogue messagesAndActor ∧
    ∃ (d : Diagram Float32) (rest : IdSupply),
      parseWith .sequence (write messagesAndActor) .fresh = .ok (d, rest) ∧ d.ids.Nodup ∧
      d.nodes.map (fun n => (n.label, n.kind)) =
        [("actor -", .actor), (">b c", .actor), ("Ann", .actor)] ∧
      d.edges.map d.arrow? = [some ⟨"actor -", ">b c", .async, some "x: y --> z", some 0⟩,
        some ⟨"Ann", "actor -", .sync, none, some 1⟩, some ⟨"Ann", "Ann", .sync, none, some 2⟩] ∧
      d.skipped = [] := by
  have hnames : ∀ name ∈ ["actor -".toList, ">b c".toList, "Ann".toList], IsFlowName name := by
    simp only [List.forall_mem_cons]
    refine ⟨?_, ?_, ?_, fun _ h => absurd h List.not_mem_nil⟩
    all_goals
      refine ⟨by decide, isTrimmed_iff.2 (by decide +kernel), ?_, by decide +kernel⟩
      simp only [List.forall_mem_cons]
      exact ⟨by decide, by decide, by decide, fun _ h => absurd h List.not_mem_nil⟩
  have htext : IsDialogue messagesAndActor := by
    constructor
    case writable =>
      refine fun r hr => ⟨fun name hn => hnames name ?_, ?_⟩
      · have hall : ∀ r ∈ messagesAndActor, ∀ name ∈ r.names,
            name ∈ ["actor -".toList, ">b c".toList, "Ann".toList] := by decide +kernel
        exact hall r hr name hn
      · have hall : ∀ r ∈ messagesAndActor, ∀ m ∈ r.message?, ∀ text ∈ m.text, '\n' ∉ text := by
          decide +kernel
        exact hall r hr
    case uncommented => decide +kernel
  have hne : messagesAndActor ≠ [] := List.cons_ne_nil _ _
  obtain ⟨d, rest, hparse, hids, hnodes, hedges, hskipped⟩ :=
    parseWith_write_remarks (α := Float32) hne htext .fresh
  exact ⟨hne, htext, d, rest, hparse, hids, hnodes.trans (by decide +kernel),
    hedges.trans (by decide +kernel), hskipped⟩

/-- Without a line there is no text. -/
theorem parseWith_write_no_remarks :
    IsDialogue [] ∧
      parseWith (α := Float32) .sequence (write []) .fresh = .error .emptyInput ∧
      ¬ ∀ (remarks : List Remark) (ids : IdSupply), IsDialogue remarks →
        ∃ (d : Diagram Float32) (rest : IdSupply),
          parseWith .sequence (write remarks) ids = .ok (d, rest) := by
  have htext : IsDialogue [] := by constructor <;> simp
  refine ⟨htext, rfl, fun h => ?_⟩
  obtain ⟨d, rest, hparse⟩ := h [] .fresh htext
  cases hparse

end

end Drafting.Source.Conversation
