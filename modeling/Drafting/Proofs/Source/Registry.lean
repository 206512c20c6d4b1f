import Mathlib.Data.List.Induction
import Drafting.Proofs.Source.Sketch

namespace Drafting

namespace Sketch

variable {κ : Type} {s : Sketch} {isSame : Item → Bool} {key : Item → κ} {item : Item}

theorem items_prefix_ensure (s : Sketch) (isSame : Item → Bool) (item : Item) :
    s.items <+: (s.ensure isSame item).1.items := by
  rw [ensure]
  cases s.items.findIdx? isSame with
  | none => exact List.prefix_append _ _
  | some i => exact List.prefix_rfl

theorem exists_getElem?_ensure (s : Sketch) (isSame : Item → Bool) (key : Item → κ) (item : Item)
    (hs : ∀ i, isSame i ↔ key i = key item) :
    ∃ i, (s.ensure isSame item).1.items[(s.ensure isSame item).2]? = some i ∧
      key i = key item := by
  rw [ensure]
  cases h : s.items.findIdx? isSame with
  | none => exact ⟨item, by simp, rfl⟩
  | some i =>
      obtain ⟨hi, hsame, -⟩ := List.findIdx?_eq_some_iff_getElem.1 h
      exact ⟨_, List.getElem?_eq_getElem hi, (hs _).1 hsame⟩

theorem nodup_ensure (h : (s.items.map key).Nodup) (hs : ∀ i, isSame i ↔ key i = key item) :
    ((s.ensure isSame item).1.items.map key).Nodup := by
  rw [ensure]
  cases hf : s.items.findIdx? isSame with
  | some i => exact h
  | none =>
      have hnew : key item ∉ s.items.map key := by
        intro hm
        obtain ⟨i, hi, he⟩ := List.mem_map.1 hm
        have hno := List.findIdx?_eq_none_iff.1 hf i hi
        simp [(hs i).2 he] at hno
      rw [List.map_append]
      exact h.append (List.nodup_singleton _) (by simpa using hnew)

def HasKind (s : Sketch) (kind : NodeKind) (i : Nat) : Prop :=
  ∃ item, s.items[i]? = some item ∧ item.kind = kind

theorem HasKind.lt {kind : NodeKind} {i : Nat} (h : s.HasKind kind i) : i < s.items.length := by
  obtain ⟨item, hi, -⟩ := h
  exact (List.getElem?_eq_some_iff.1 hi).1

theorem HasKind.ensure {kind : NodeKind} {i : Nat} (h : s.HasKind kind i) (isSame : Item → Bool)
    (item : Item) : (s.ensure isSame item).1.HasKind kind i := by
  obtain ⟨x, hi, hk⟩ := h
  obtain ⟨hlt, rfl⟩ := List.getElem?_eq_some_iff.1 hi
  exact ⟨_, List.prefix_iff_getElem?.1 (s.items_prefix_ensure isSame item) i hlt, hk⟩

end Sketch

namespace Source

structure OnePerLabel (s : Sketch) : Prop where
  tied : s.Tied
  labels : (s.items.map Sketch.Item.label).Nodup

theorem onePerLabel_empty : OnePerLabel .empty :=
  ⟨by simp [Sketch.Tied, Sketch.empty], List.nodup_nil⟩

theorem OnePerLabel.ensure {s : Sketch} (h : OnePerLabel s) {name : String} {item : Sketch.Item}
    (hi : item.label = name) : OnePerLabel (s.ensure (·.label == name) item).1 := by
  subst hi
  exact ⟨h.tied.ensure _ _, Sketch.nodup_ensure h.labels fun _ => beq_iff_eq⟩

namespace Flow

variable {shape : String → NodeKind} {s : Sketch}

theorem items_prefix_ensureAll (shape : String → NodeKind) (s : Sketch) (names : List String) :
    s.items <+: (ensureAll shape s names).1.items := by
  induction names generalizing s with
  | nil => exact List.prefix_rfl
  | cons name names ih => exact (s.items_prefix_ensure _ _).trans (ih _)

theorem ensureAll_lt (shape : String → NodeKind) (s : Sketch) (names : List String) :
    ∀ i ∈ (ensureAll shape s names).2, i < (ensureAll shape s names).1.items.length := by
  induction names generalizing s with
  | nil => simp [ensureAll]
  | cons name names ih =>
      let item : Sketch.Item := ⟨shape name, name, none⟩
      let next := s.ensure (·.label == name) item
      refine List.forall_mem_cons.2 ⟨?_, ih next.1⟩
      exact (s.ensure_lt _ item).trans_le (items_prefix_ensureAll shape next.1 names).length_le

theorem onePerLabel_ensureAll (h : OnePerLabel s) (names : List String) :
    OnePerLabel (ensureAll shape s names).1 := by
  induction names generalizing s with
  | nil => exact h
  | cons name names ih => exact ih (h.ensure rfl)

theorem mem_of_mem_hops {label : Option String} {is : List Nat} :
    ∀ t ∈ hops label is, t.source ∈ is ∧ t.target ∈ is := by
  induction is with
  | nil => simp [hops]
  | cons i is ih =>
      cases is with
      | nil => simp [hops]
      | cons j rest =>
          rw [hops, List.forall_mem_cons]
          refine ⟨⟨by simp, by simp⟩, fun t ht => ?_⟩
          exact (ih t ht).imp (List.mem_cons_of_mem i) (List.mem_cons_of_mem i)

theorem onePerLabel_apply (h : OnePerLabel s) (statement : Statement) :
    OnePerLabel (apply shape s statement) := by
  cases statement with
  | title t => exact ⟨h.tied, h.labels⟩
  | chain names label =>
      have hall : OnePerLabel (ensureAll shape s names).1 := onePerLabel_ensureAll h names
      refine ⟨fun t ht => ?_, hall.labels⟩
      rcases List.mem_append.1 ht with ht | ht
      · exact hall.tied t ht
      · have hlt := ensureAll_lt shape s names
        exact (mem_of_mem_hops t ht).imp (hlt _) (hlt _)

theorem onePerLabel_sketch (shape : String → NodeKind) (statements : List Statement) :
    OnePerLabel (sketch shape statements) :=
  List.foldlRecOn statements (apply shape) onePerLabel_empty fun _ h statement _ =>
    onePerLabel_apply h statement

end Flow

namespace Conversation

variable {s : Sketch}

/-- Messages go between actors that are there, and have the rows from zero on. -/
structure Sound (s : Sketch) : Prop where
  tied : s.Tied
  orders : s.ties.map Sketch.Tie.order = (List.range s.ties.length).map some

theorem sound_empty : Sound .empty := ⟨by simp [Sketch.Tied, Sketch.empty], rfl⟩

theorem ties_actor (s : Sketch) (name : String) : (actor s name).1.ties = s.ties :=
  s.ties_ensure _ _

theorem Sound.actor (h : Sound s) (name : String) : Sound (actor s name).1 where
  tied := h.tied.ensure _ _
  orders := by
    rw [ties_actor]
    exact h.orders

theorem Sound.tie (h : Sound s) {t : Sketch.Tie} (hs : t.source < s.items.length)
    (ht : t.target < s.items.length) (ho : t.order = some s.ties.length) : Sound (s.tie t) where
  tied := h.tied.tie hs ht
  orders := by simp [Sketch.tie, h.orders, ho, List.range_succ]

theorem Sound.apply (h : Sound s) (statement : Statement) : Sound (apply s statement) := by
  cases statement with
  | message source target kind text =>
      have hs := s.ensure_lt_ensure (·.label == source) ⟨.actor, source, none⟩
        (·.label == target) ⟨.actor, target, none⟩
      have ht := (Conversation.actor s source).1.ensure_lt (·.label == target)
        ⟨.actor, target, none⟩
      exact ((h.actor source).actor target).tie hs ht rfl
  | declare name => exact h.actor name
  | title t => exact ⟨h.tied, h.orders⟩

theorem sound_sketch (statements : List Statement) : Sound (sketch statements) :=
  List.foldlRecOn statements Conversation.apply sound_empty fun _ h statement _ => h.apply statement

theorem length_ties_apply_le (s : Sketch) (statement : Statement) :
    (apply s statement).ties.length ≤ s.ties.length + 1 := by
  cases statement <;> simp [apply, Sketch.tie, Sketch.titled, ties_actor]

theorem length_ties_sketch_le (statements : List Statement) :
    (sketch statements).ties.length ≤ statements.length := by
  have hrun (s : Sketch) (statements : List Statement) :
      (statements.foldl apply s).ties.length ≤ s.ties.length + statements.length := by
    induction statements generalizing s with
    | nil => simp
    | cons statement statements ih =>
        have hstep := length_ties_apply_le s statement
        have hrest := ih (apply s statement)
        rw [List.foldl_cons, List.length_cons]
        omega
  simpa [Sketch.empty, sketch] using hrun .empty statements

theorem nodup_labels_apply (h : (s.items.map Sketch.Item.label).Nodup)
    (statement : Statement) : ((apply s statement).items.map Sketch.Item.label).Nodup := by
  have hactor {s : Sketch} (h : (s.items.map Sketch.Item.label).Nodup) (name : String) :
      ((actor s name).1.items.map Sketch.Item.label).Nodup :=
    Sketch.nodup_ensure h fun _ => beq_iff_eq
  cases statement with
  | message source target kind text => exact hactor (hactor h source) target
  | declare name => exact hactor h name
  | title t => exact h

theorem onePerLabel_sketch (statements : List Statement) : OnePerLabel (sketch statements) :=
  ⟨(sound_sketch statements).tied,
    List.foldlRecOn (motive := fun s => (s.items.map Sketch.Item.label).Nodup) statements apply
      List.nodup_nil fun _ h statement _ => nodup_labels_apply h statement⟩

end Conversation

namespace ClassText

theorem names_update (table : List ClassEntry) (name : String) {change : ClassEntry → ClassEntry}
    (hc : ∀ e, (change e).name = e.name) :
    (update table name change).map ClassEntry.name =
      if name ∈ table.map ClassEntry.name then table.map ClassEntry.name
      else table.map ClassEntry.name ++ [name] := by
  have hany : table.any (·.name == name) ↔ name ∈ table.map ClassEntry.name := by simp
  rw [update]
  by_cases h : name ∈ table.map ClassEntry.name
  · rw [if_pos (hany.2 h), if_pos h, List.map_map]
    refine List.map_congr_left fun e _ => ?_
    rw [Function.comp_apply]
    split
    · exact hc e
    · rfl
  · rw [if_neg (mt hany.1 h), if_neg h, List.map_append, List.map_singleton, hc]

theorem forall_mem_update {P Q : ClassEntry → Prop} {table : List ClassEntry} {name : String}
    {change : ClassEntry → ClassEntry} (ht : ∀ e ∈ table, P e)
    (hnew : name ∉ table.map ClassEntry.name → Q (change ⟨name, none, .empty⟩))
    (hsame : ∀ e, P e → e.name = name → Q (change e)) (hother : ∀ e, P e → e.name ≠ name → Q e) :
    ∀ e ∈ update table name change, Q e := by
  rw [update]
  split
  · refine List.forall_mem_map.2 fun e he => ?_
    split
    next hname => exact hsame e (ht e he) hname
    next hname => exact hother e (ht e he) hname
  next hany =>
    have hnot : name ∉ table.map ClassEntry.name := by simpa using hany
    refine List.forall_mem_append.2 ⟨fun e he => ?_, List.forall_mem_singleton.2 (hnew hnot)⟩
    exact hother e (ht e he) fun hname => hnot (hname ▸ List.mem_map_of_mem he)

def Statement.subject? : Statement → Option String
  | .declare name _ => some name
  | .member owner _ => some owner
  | _ => none

/-- Classes stand in the order in which they are first spoken of. -/
theorem names_classTable (statements : List Statement) :
    (classTable statements).map ClassEntry.name =
      (statements.filterMap Statement.subject?).eraseDups := by
  have hnote {names : List String} {table : List ClassEntry} (name : String)
      {change : ClassEntry → ClassEntry} (hc : ∀ e, (change e).name = e.name)
      (h : table.map ClassEntry.name = names.eraseDups) :
      (update table name change).map ClassEntry.name = (names ++ [name]).eraseDups := by
    rw [names_update table name hc, h, eraseDups_concat]
    simp only [List.mem_eraseDups]
  induction statements using List.reverseRecOn with
  | nil => rfl
  | append_singleton statements s ih =>
      rw [classTable, List.foldl_concat, ← classTable, List.filterMap_append]
      cases s with
      | declare name parent => exact hnote name (fun _ => rfl) ih
      | member owner m => exact hnote owner (fun _ => rfl) ih
      | relation | title => exact ih.trans (congrArg _ (List.append_nil _).symm)

theorem labels_sketch (statements : List Statement) :
    (sketch statements).items.map Sketch.Item.label =
      (statements.filterMap Statement.subject?).eraseDups := by
  rw [← names_classTable, sketch, List.map_map]
  rfl

theorem lt_of_resolve {names : List String} {r : Relation} {t : Sketch.Tie}
    (h : (resolve names r).toOption = some t) :
    t.source < names.length ∧ t.target < names.length := by
  have hlt {name : String} {i : Nat} (hi : names.findIdx? (· == name) = some i) :
      i < names.length := (List.findIdx?_eq_some_iff_findIdx_eq.1 hi).1
  rw [resolve] at h
  split at h
  next hi hj =>
    cases h
    exact ⟨hlt hi, hlt hj⟩
  next => cases h
  next => cases h

theorem onePerLabel_sketch (statements : List Statement) : OnePerLabel (sketch statements) := by
  constructor
  case tied =>
    intro t ht
    obtain ⟨r, -, hr⟩ := List.mem_filterMap.1 ht
    simpa [sketch] using lt_of_resolve hr
  case labels =>
    rw [labels_sketch]
    exact nodup_eraseDups _

theorem skipped_readFrom_sublist (mode : Mode) (lines : List Line) :
    (readFrom mode lines).2.Sublist (lines.map Line.number) := by
  induction lines generalizing mode with
  | nil => exact .slnil
  | cons line lines ih =>
      rw [readFrom, List.map_cons]
      dsimp only
      split
      · exact (ih _).cons _
      · exact (ih _).cons_cons _

end ClassText

namespace UseCase

structure Sound (s : Sketch) : Prop where
  tied : s.Tied
  keys : (s.items.map fun i => (i.kind, i.label)).Nodup
  targets : ∀ t ∈ s.ties, s.HasKind .useCase t.target
  sources : ∀ t ∈ s.ties, t.kind = .inclusion ∨ t.kind = .extension → s.HasKind .useCase t.source

variable {s : Sketch}

theorem sound_empty : Sound .empty where
  tied := by simp [Sketch.Tied, Sketch.empty]
  keys := List.nodup_nil
  targets := by simp [Sketch.empty]
  sources := by simp [Sketch.empty]

theorem hasKind_ensure (kind : NodeKind) (s : Sketch) (name : String) :
    (ensure kind s name).1.HasKind kind (ensure kind s name).2 := by
  obtain ⟨item, hi, hk⟩ := s.exists_getElem?_ensure (fun i => i.kind = kind ∧ i.label = name)
    (fun i => (i.kind, i.label)) ⟨kind, name, none⟩ (by simp)
  exact ⟨item, hi, (Prod.ext_iff.1 hk).1⟩

theorem Sound.ensure (h : Sound s) (kind : NodeKind) (name : String) :
    Sound (ensure kind s name).1 where
  tied := h.tied.ensure _ _
  keys := Sketch.nodup_ensure h.keys (by simp)
  targets t ht := by
    rw [UseCase.ensure, Sketch.ties_ensure] at ht
    exact (h.targets t ht).ensure _ _
  sources t ht hk := by
    rw [UseCase.ensure, Sketch.ties_ensure] at ht
    exact (h.sources t ht hk).ensure _ _

theorem Sound.tie (h : Sound s) {t : Sketch.Tie} (hs : t.source < s.items.length)
    (ht : s.HasKind .useCase t.target)
    (hk : t.kind = .inclusion ∨ t.kind = .extension → s.HasKind .useCase t.source) :
    Sound (s.tie t) where
  tied := h.tied.tie hs ht.lt
  keys := h.keys
  targets := by
    simp only [Sketch.tie, List.forall_mem_append, List.forall_mem_singleton]
    exact ⟨h.targets, ht⟩
  sources := by
    simp only [Sketch.tie, List.forall_mem_append, List.forall_mem_singleton]
    exact ⟨h.sources, hk⟩

theorem Sound.apply (h : Sound s) (statement : Statement) : Sound (apply s statement) := by
  cases statement with
  | relation source target kind label =>
      let s' := (UseCase.ensure .useCase s source).1
      have hs := (hasKind_ensure .useCase s source).ensure
        (fun i => i.kind = .useCase ∧ i.label = target) ⟨.useCase, target, none⟩
      exact ((h.ensure _ source).ensure _ target).tie hs.lt (hasKind_ensure _ s' target) fun _ => hs
  | link actor useCase label =>
      let s' := (UseCase.ensure .actor s actor).1
      have hs := (hasKind_ensure .actor s actor).ensure
        (fun i => i.kind = .useCase ∧ i.label = useCase) ⟨.useCase, useCase, none⟩
      exact ((h.ensure _ actor).ensure _ useCase).tie hs.lt (hasKind_ensure _ s' useCase) (by simp)
  | actor name => exact h.ensure _ name
  | useCase name => exact h.ensure _ name
  | title t => exact ⟨h.tied, h.keys, h.targets, h.sources⟩

theorem sound_sketch (statements : List Statement) : Sound (sketch statements) :=
  List.foldlRecOn statements UseCase.apply sound_empty fun _ h statement _ => h.apply statement

end UseCase

namespace Outline

theorem length_parents (stack : List (Nat × Nat)) (i : Nat) (entries : List Entry) :
    (parents stack i entries).length = entries.length := by
  induction entries generalizing stack i with
  | nil => rfl
  | cons e entries ih => rw [parents, List.length_cons, ih, List.length_cons]

/-- A parent is an entry further up. -/
theorem parents_lt {stack : List (Nat × Nat)} {i : Nat} (h : ∀ p ∈ stack, p.2 < i)
    (entries : List Entry) {k parent : Nat}
    (hk : (parents stack i entries)[k]? = some (some parent)) : parent < i + k := by
  induction entries generalizing stack i k with
  | nil => simp [parents] at hk
  | cons e entries ih =>
      have hopen : ∀ p ∈ stack.dropWhile fun p => e.level ≤ p.1, p.2 < i := fun p hp =>
        h p ((List.dropWhile_sublist _).subset hp)
      cases k with
      | zero =>
          rw [parents, List.getElem?_cons_zero, Option.some_inj] at hk
          obtain ⟨p, hp, rfl⟩ := Option.map_eq_some_iff.1 hk
          exact hopen p (List.mem_of_mem_head? hp)
      | succ k =>
          rw [parents, List.getElem?_cons_succ] at hk
          have hlt := ih (List.forall_mem_cons.2 ⟨i.lt_succ_self, fun p hp =>
            (hopen p hp).trans i.lt_succ_self⟩) hk
          omega

theorem tied_sketch (entries : List Entry) : (sketch entries).Tied := by
  intro t ht
  obtain ⟨⟨parent, i⟩, hp, hm⟩ := List.mem_filterMap.1 ht
  obtain ⟨p, rfl, rfl⟩ := Option.map_eq_some_iff.1 hm
  have hi := List.mk_mem_zipIdx_iff_getElem?.1 hp
  have hlt : i < entries.length := by
    rw [← length_parents [] 0 entries]
    exact (List.getElem?_eq_some_iff.1 hi).1
  have hparent := parents_lt (by simp) entries hi
  simp only [sketch, List.length_map, List.length_zipIdx, List.length_zip, length_parents]
  omega

end Outline

end Source

end Drafting
