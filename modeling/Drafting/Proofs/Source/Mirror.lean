import Drafting.Proofs.Source.LineByLine
import Drafting.Proofs.Source.Registry

namespace Drafting

variable {α : Type} {node : Sketch.Item → String → Node α} {ids : IdSupply} {s : Sketch}
  {d : Draft α}

/-- The draft has what the sketch has, with the next identifiers of the supply. -/
structure Mirrors (node : Sketch.Item → String → Node α) (ids : IdSupply) (s : Sketch)
    (d : Draft α) : Prop where
  nodes : d.nodes = List.zipWith node s.items (ids.take "node" s.items.length)
  edges : d.edges = List.zipWith (fun t id => t.toEdge (ids.take "node" s.items.length) id) s.ties
    (ids.take "edge" s.ties.length)
  title : d.title = s.title
  supply : d.ids = s.spend ids
  tied : s.Tied

namespace Mirrors

theorem start (node : Sketch.Item → String → Node α) (ids : IdSupply) :
    Mirrors node ids .empty (.start ids) where
  nodes := rfl
  edges := rfl
  title := rfl
  supply := by simp [Sketch.spend, Sketch.empty, Draft.start]
  tied := by simp [Sketch.Tied, Sketch.empty]

theorem titled (h : Mirrors node ids s d) (title : Option String) :
    Mirrors node ids { s with title } { d with title } :=
  ⟨h.nodes, h.edges, rfl, h.supply, h.tied⟩

theorem length_nodes (h : Mirrors node ids s d) : d.nodes.length = s.items.length := by
  simp [h.nodes]

theorem map_id (h : Mirrors node ids s d) (hid : ∀ item id, (node item id).id = id) :
    d.nodes.map Node.id = ids.take "node" s.items.length := by
  rw [h.nodes, map_zipWith_right (v := id) hid (by simp), List.map_id]

theorem keep (h : Mirrors node ids s d) (row : Nat) (stack : List (Nat × Nat))
    (parents : List (Option Nat)) :
    Mirrors node ids s { d with row := row, stack := stack, parents := parents } :=
  ⟨h.nodes, h.edges, h.title, h.supply, h.tied⟩

theorem next_node (h : Mirrors node ids s d) :
    (d.ids.next "node").1 = ids.nth "node" s.items.length := by
  rw [IdSupply.next, h.supply, Sketch.count_node_spend]
  rfl

theorem next_edge (h : Mirrors node ids s d) :
    (d.ids.next "edge").1 = ids.nth "edge" s.ties.length := by
  rw [IdSupply.next, h.supply, Sketch.count_edge_spend]
  rfl

theorem add (h : Mirrors node ids s d) (item : Sketch.Item) :
    Mirrors node ids { s with items := s.items ++ [item] } (d.add (node item)).1 ∧
      (d.add (node item)).2 = ids.nth "node" s.items.length := by
  refine ⟨?_, h.next_node⟩
  have hlength : (s.items ++ [item]).length = s.items.length + 1 := List.length_append
  constructor
  case nodes =>
    change d.nodes ++ [node item (d.ids.next "node").1] = _
    dsimp only
    rw [hlength, IdSupply.take_succ, List.zipWith_append (by simp), ← h.nodes, h.next_node]
    rfl
  case edges =>
    change d.edges = _
    rw [h.edges]
    refine zipWith_congr_left fun t ht => funext fun id => ?_
    obtain ⟨hsource, htarget⟩ := h.tied t ht
    dsimp only
    rw [hlength, Sketch.Tie.toEdge, Sketch.Tie.toEdge, IdSupply.getD_take hsource,
      IdSupply.getD_take htarget, IdSupply.getD_take (Nat.lt_succ_of_lt hsource),
      IdSupply.getD_take (Nat.lt_succ_of_lt htarget)]
  case title => exact h.title
  case supply =>
    change d.ids.advance "node" 1 = _
    rw [h.supply, Sketch.spend, Sketch.spend, hlength, IdSupply.advance_comm,
      IdSupply.advance_advance]
  case tied =>
    intro t ht
    rw [hlength]
    exact (h.tied t ht).imp Nat.lt_succ_of_lt Nat.lt_succ_of_lt

/-- Looking for a node in the draft finds what looking for an item in the sketch finds. -/
theorem map_id_find? (h : Mirrors node ids s d) (hid : ∀ item id, (node item id).id = id)
    {same : Node α → Bool} {isSame : Sketch.Item → Bool}
    (hs : ∀ item id, same (node item id) = isSame item) :
    (d.nodes.find? same).map Node.id = (s.items.findIdx? isSame).map (ids.nth "node") := by
  cases hf : s.items.findIdx? isSame with
  | none =>
      rw [Option.map_none, Option.map_eq_none_iff, List.find?_eq_none, h.nodes]
      intro n hn
      obtain ⟨item, hi, id, rfl⟩ := exists_of_mem_zipWith hn
      rw [hs, List.findIdx?_eq_none_iff.1 hf item hi]
      exact Bool.false_ne_true
  | some i =>
      obtain ⟨hi, hsame, hfirst⟩ := List.findIdx?_eq_some_iff_getElem.1 hf
      have hget {j : Nat} (hj : j < s.items.length) :
          d.nodes[j]? = some (node s.items[j] (ids.nth "node" j)) := by
        rw [h.nodes]
        exact List.getElem?_zipWith_eq_some.2
          ⟨_, _, List.getElem?_eq_getElem hj, IdSupply.getElem?_take hj, rfl⟩
      have hsome : d.nodes.find? same = some (node s.items[i] (ids.nth "node" i)) := by
        rw [List.find?_eq_some_iff_getElem]
        refine ⟨(hs _ _).trans hsame, i, h.length_nodes ▸ hi, ?_, fun j hj => ?_⟩
        · exact (List.getElem_eq_iff _).2 (hget hi)
        · rw [(List.getElem_eq_iff _).2 (hget (hj.trans hi)), hs]
          simpa using hfirst j hj
      rw [hsome, Option.map_some, hid, Option.map_some]

theorem ensure (h : Mirrors node ids s d) (hid : ∀ item id, (node item id).id = id)
    {same : Node α → Bool} {isSame : Sketch.Item → Bool}
    (hs : ∀ item id, same (node item id) = isSame item) (item : Sketch.Item) :
    Mirrors node ids (s.ensure isSame item).1 (d.ensure same (node item)).1 ∧
      (d.ensure same (node item)).2 = ids.nth "node" (s.ensure isSame item).2 := by
  have hfind := h.map_id_find? hid hs
  rw [Draft.ensure, Sketch.ensure]
  cases hf : s.items.findIdx? isSame with
  | none =>
      rw [hf] at hfind
      rw [Option.map_eq_none_iff.1 hfind]
      exact h.add item
  | some i =>
      rw [hf] at hfind
      obtain ⟨n, hn, hnid⟩ := Option.map_eq_some_iff.1 hfind
      rw [hn]
      exact ⟨h, hnid⟩

theorem connect (h : Mirrors node ids s d) {t : Sketch.Tie} (hs : t.source < s.items.length)
    (ht : t.target < s.items.length) :
    Mirrors node ids (s.tie t) (d.connect (ids.nth "node" t.source) (ids.nth "node" t.target)
      t.kind t.label t.order) := by
  have hlength : (s.ties ++ [t]).length = s.ties.length + 1 := List.length_append
  constructor
  case nodes => exact h.nodes
  case edges =>
    change d.edges ++ [⟨(d.ids.next "edge").1, _, _, t.label, some t.kind, t.order⟩] = _
    rw [Sketch.tie, hlength, IdSupply.take_succ, List.zipWith_append (by simp), ← h.edges,
      h.next_edge, List.zipWith_cons_cons, Sketch.Tie.toEdge, IdSupply.getD_take hs,
      IdSupply.getD_take ht]
    rfl
  case title => exact h.title
  case supply =>
    change d.ids.advance "edge" 1 = _
    rw [h.supply, Sketch.spend, Sketch.spend, Sketch.tie, hlength, IdSupply.advance_advance]
  case tied => exact h.tied.tie hs ht

end Mirrors

variable [Scalar α]

namespace Source

abbrev Sized (kind : DiagramKind) (ids : IdSupply) (s : Sketch) (d : Draft α) : Prop :=
  Mirrors (Sketch.Item.toNode kind) ids s d

theorem sized_ensure {kind : DiagramKind} (h : Sized kind ids s d) (name : String)
    (item : Sketch.Item) :
    Sized kind ids (s.ensure (·.label == name) item).1
        (d.ensure (·.label == name) (item.toNode kind)).1 ∧
      (d.ensure (·.label == name) (item.toNode kind)).2 =
        ids.nth "node" (s.ensure (·.label == name) item).2 :=
  h.ensure (fun _ _ => rfl) (fun _ _ => rfl) item

namespace Flow

variable {kind : DiagramKind} {shape : String → NodeKind}

theorem mirrors_drawNames (h : Sized kind ids s d) (names : List String) :
    Sized kind ids (ensureAll shape s names).1 (drawNames kind shape d names).1 ∧
      (drawNames kind shape d names).2 = (ensureAll shape s names).2.map (ids.nth "node") := by
  induction names generalizing s d with
  | nil => exact ⟨h, rfl⟩
  | cons name names ih =>
      obtain ⟨hnext, hid⟩ := sized_ensure h name ⟨shape name, name, none⟩
      obtain ⟨hrest, hids⟩ := ih hnext
      exact ⟨hrest, congrArg₂ List.cons hid hids⟩

theorem mirrors_drawHops (h : Sized kind ids s d) (label : Option String) {is : List Nat}
    (hi : ∀ i ∈ is, i < s.items.length) :
    Sized kind ids { s with ties := s.ties ++ hops label is }
      (drawHops label d (is.map (ids.nth "node"))) := by
  induction is generalizing s d with
  | nil => simpa [hops, drawHops] using h
  | cons i is ih =>
      cases is with
      | nil => simpa [hops, drawHops] using h
      | cons j rest =>
          obtain ⟨hi, hrest⟩ := List.forall_mem_cons.1 hi
          have hj : j < s.items.length := hrest j List.mem_cons_self
          let t : Sketch.Tie := ⟨i, j, .flow, if rest.isEmpty then label else none, none⟩
          have hall := ih (h.connect (t := t) hi hj) hrest
          simpa [hops, drawHops, Sketch.tie, t] using hall

theorem mirrors_draw (h : Sized kind ids s d) (statement : Statement) :
    Sized kind ids (apply shape s statement) (draw kind shape d statement) := by
  cases statement with
  | title t => exact h.titled (some t)
  | chain names label =>
      obtain ⟨hnames, hids⟩ := mirrors_drawNames h names
      rw [show draw kind shape d (.chain names label) =
        drawHops label (drawNames kind shape d names).1 (drawNames kind shape d names).2 from rfl,
        hids]
      exact mirrors_drawHops hnames label (ensureAll_lt shape s names)

end Flow

namespace Conversation

theorem mirrors_drawActor (h : Sized .sequence ids s d) (name : String) :
    Sized .sequence ids (actor s name).1 (drawActor d name).1 ∧
      (drawActor d name).2 = ids.nth "node" (actor s name).2 :=
  sized_ensure h name _

theorem row_drawActor (d : Draft α) (name : String) : (drawActor d name).1.row = d.row := by
  rw [drawActor, Draft.ensure]
  split <;> rfl

/-- The next row is behind those of the messages that there are. -/
theorem mirrors_draw (h : Sized .sequence ids s d) (hrow : d.row = s.ties.length)
    (statement : Statement) :
    Sized .sequence ids (apply s statement) (draw d statement) ∧
      (draw d statement).row = (apply s statement).ties.length := by
  cases statement with
  | title t => exact ⟨h.titled (some t), hrow⟩
  | declare name =>
      refine ⟨(mirrors_drawActor h name).1, ?_⟩
      exact (row_drawActor d name).trans (hrow.trans (congrArg _ (ties_actor s name).symm))
  | message source target kind text =>
      obtain ⟨hsource, hi⟩ := mirrors_drawActor h source
      obtain ⟨htarget, hj⟩ := mirrors_drawActor hsource target
      let s' := (actor (actor s source).1 target).1
      let d' := (drawActor (drawActor d source).1 target).1
      have hrow' : d'.row = s'.ties.length := by
        rw [row_drawActor, row_drawActor, hrow, ties_actor, ties_actor]
      let t : Sketch.Tie := ⟨(actor s source).2, (actor (actor s source).1 target).2, kind, text,
        some s'.ties.length⟩
      have hall := htarget.connect (t := t) (s.ensure_lt_ensure _ _ _ _)
        ((actor s source).1.ensure_lt _ _)
      have hdraw : draw d (.message source target kind text) =
          { d'.connect (ids.nth "node" t.source) (ids.nth "node" t.target) kind text
              (some s'.ties.length) with row := s'.ties.length + 1 } := by
        rw [← hi, ← hj, ← hrow']
        rfl
      rw [hdraw]
      refine ⟨hall.keep _ _ _, ?_⟩
      have hcount : (s'.tie t).ties.length = s'.ties.length + 1 := List.length_append
      exact hcount.symm

end Conversation

namespace UseCase

theorem mirrors_drawNode (h : Sized .useCase ids s d) (kind : NodeKind) (name : String) :
    Sized .useCase ids (ensure kind s name).1 (drawNode kind d name).1 ∧
      (drawNode kind d name).2 = ids.nth "node" (ensure kind s name).2 :=
  h.ensure (fun _ _ => rfl) (fun _ _ => rfl) _

theorem mirrors_drawLink (h : Sized .useCase ids s d) (kind : NodeKind) (source target : String)
    (edge : EdgeKind) (label : Option String) :
    let (s', i) := ensure kind s source
    let (s'', j) := ensure .useCase s' target
    Sized .useCase ids (s''.tie ⟨i, j, edge, label, none⟩)
      (drawLink kind d source target edge label) := by
  obtain ⟨hsource, hi⟩ := mirrors_drawNode h kind source
  obtain ⟨htarget, hj⟩ := mirrors_drawNode hsource .useCase target
  dsimp only
  rw [drawLink]
  dsimp only
  rw [hi, hj]
  exact htarget.connect (s.ensure_lt_ensure _ _ _ _) ((ensure kind s source).1.ensure_lt _ _)

theorem mirrors_draw (h : Sized .useCase ids s d) (statement : Statement) :
    Sized .useCase ids (apply s statement) (draw d statement) := by
  cases statement with
  | relation source target kind label => exact mirrors_drawLink h .useCase source target kind label
  | link actor useCase label => exact mirrors_drawLink h .actor actor useCase .association label
  | actor name => exact (mirrors_drawNode h .actor name).1
  | useCase name => exact (mirrors_drawNode h .useCase name).1
  | title t => exact h.titled (some t)

end UseCase

namespace Outline

def openAfter : List (Nat × Nat) → Nat → List Entry → List (Nat × Nat)
  | stack, _, [] => stack
  | stack, i, e :: es =>
      openAfter ((e.level, i) :: stack.dropWhile fun p => e.level ≤ p.1) (i + 1) es

theorem parents_append (stack : List (Nat × Nat)) (i : Nat) (entries rest : List Entry) :
    parents stack i (entries ++ rest) =
      parents stack i entries ++
        parents (openAfter stack i entries) (i + entries.length) rest := by
  induction entries generalizing stack i with
  | nil => rfl
  | cons e entries ih =>
      rw [List.cons_append, parents, parents, ih, openAfter, List.length_cons, List.cons_append,
        Nat.add_right_comm, Nat.add_assoc]

theorem openAfter_append (stack : List (Nat × Nat)) (i : Nat) (entries rest : List Entry) :
    openAfter stack i (entries ++ rest) =
      openAfter (openAfter stack i entries) (i + entries.length) rest := by
  induction entries generalizing stack i with
  | nil => rfl
  | cons e entries ih =>
      rw [List.cons_append, openAfter, openAfter, ih, List.length_cons, Nat.add_right_comm,
        Nat.add_assoc]

def nextParent (stack : List (Nat × Nat)) (e : Entry) : Option Nat :=
  (stack.dropWhile fun p => e.level ≤ p.1).head?.map (·.2)

theorem parents_concat (entries : List Entry) (e : Entry) :
    parents [] 0 (entries ++ [e]) =
      parents [] 0 entries ++ [nextParent (openAfter [] 0 entries) e] :=
  parents_append [] 0 entries [e]

theorem nextParent_lt {entries : List Entry} {e : Entry} {j : Nat}
    (h : nextParent (openAfter [] 0 entries) e = some j) : j < entries.length := by
  have hlast : (parents [] 0 (entries ++ [e]))[entries.length]? = some (some j) := by
    rw [parents_concat, h, ← length_parents [] 0 entries]
    exact List.getElem?_concat_length
  have hlt := parents_lt (by simp) _ hlast
  omega

def bare (item : Sketch.Item) (id : String) : Node α :=
  ⟨id, item.kind, 0, 0, 1, 1, item.label, item.data⟩

def leafOf (e : Entry) : Sketch.Item := ⟨.leaf, e.label, some (.level e.level)⟩

/-- The sketch of entries before it is known which of them have others under them. -/
def sprouts (entries : List Entry) : Sketch :=
  ⟨entries.map leafOf, (sketch entries).ties, none⟩

theorem length_sprouts (entries : List Entry) :
    (sprouts entries).items.length = entries.length := List.length_map _

theorem length_items (entries : List Entry) :
    (sketch entries).items.length = entries.length := by
  simp [sketch, length_parents]

def hung (s : Sketch) (i : Nat) : Option Nat → Sketch
  | some j => s.tie ⟨j, i, .branch, none, none⟩
  | none => s

theorem sprouts_concat (entries : List Entry) (e : Entry) :
    sprouts (entries ++ [e]) =
      hung { sprouts entries with items := (sprouts entries).items ++ [leafOf e] } entries.length
        (nextParent (openAfter [] 0 entries) e) := by
  rw [sprouts, sprouts, sketch, sketch]
  dsimp only
  rw [parents_concat, List.map_append, List.zipIdx_append, List.filterMap_append, length_parents]
  cases nextParent (openAfter [] 0 entries) e with
  | some j => simp [hung, Sketch.tie]
  | none => simp [hung]

theorem mirrors_hang (h : Mirrors bare ids s d) {i : Nat} (hi : i < s.items.length)
    {parent : Option Nat} (hp : ∀ j ∈ parent, j < s.items.length) :
    Mirrors bare ids (hung s i parent) (hang d (ids.nth "node" i) parent) := by
  cases parent with
  | none => exact h
  | some j =>
      have hj : j < s.items.length := hp j rfl
      have hend : (d.nodes.map Node.id).getD j "" = ids.nth "node" j := by
        rw [h.map_id fun _ _ => rfl, IdSupply.getD_take hj]
      rw [hung, hang, hend]
      exact h.connect (t := ⟨j, i, .branch, none, none⟩) hj hi

structure Grows (ids : IdSupply) (entries : List Entry) (d : Draft α) : Prop where
  mirrors : Mirrors bare ids (sprouts entries) d
  parents : d.parents = parents [] 0 entries
  stack : d.stack = openAfter [] 0 entries

theorem Grows.draw {entries : List Entry} (h : Grows ids entries d) (e : Entry) :
    Grows ids (entries ++ [e]) (draw d e) := by
  obtain ⟨hadd, hid⟩ := h.mirrors.add (leafOf e)
  have hlength := length_sprouts entries
  have hcount : ((sprouts entries).items ++ [leafOf e]).length = entries.length + 1 := by
    rw [List.length_append, hlength]
    rfl
  have hparent : (d.stack.dropWhile fun p => e.level ≤ p.1).head?.map (·.2) =
      nextParent (openAfter [] 0 entries) e := by
    rw [h.stack]
    rfl
  have hlast : entries.length < ((sprouts entries).items ++ [leafOf e]).length := by omega
  have hhung := mirrors_hang hadd hlast fun j hj => (nextParent_lt (e := e) hj).trans hlast
  rw [hlength] at hid
  rw [← hid, ← sprouts_concat, ← hparent] at hhung
  constructor
  case mirrors => exact hhung.keep _ _ _
  case parents =>
    rw [parents_concat, ← hparent, ← h.parents]
    rfl
  case stack =>
    rw [openAfter_append, ← h.stack, ← hlength, ← h.mirrors.length_nodes, Nat.zero_add]
    rfl

theorem grows_foldl (ids : IdSupply) (entries : List Entry) :
    Grows ids entries (entries.foldl Outline.draw (.start ids : Draft α)) := by
  induction entries using List.reverseRecOn with
  | nil => exact ⟨Mirrors.start bare ids, rfl, rfl⟩
  | append_singleton entries e ih =>
      rw [List.foldl_append]
      exact ih.draw e

/-- With their roles, the nodes are those of the outline. -/
theorem Grows.settle_eq {entries : List Entry} (h : Grows ids entries d)
    (skipped : List Nat) (unresolved : List String) :
    settle d = ((sketch entries).toDiagram .mindmap skipped unresolved ids).nodes := by
  refine List.ext_getElem? fun i => ?_
  rw [settle, h.parents, h.mirrors.nodes, length_sprouts, Sketch.toDiagram, length_items,
    sprouts, sketch]
  simp only [List.getElem?_map, List.getElem?_zipIdx, List.zip, List.getElem?_zipWith]
  cases entries[i]? with
  | none => rfl
  | some e =>
      cases (ids.take "node" entries.length)[i]? with
      | none => cases (Outline.parents [] 0 entries)[i]? <;> rfl
      | some id => cases (Outline.parents [] 0 entries)[i]? <;> rfl

end Outline

namespace ClassText

theorem mirrors_foldl_drawClass (h : Sized .classes ids s d) (table : List ClassEntry) :
    Sized .classes ids
      { s with items := s.items ++ table.map fun e =>
          ⟨.classBox, e.name, some (.members e.compartments)⟩ }
      (table.foldl drawClass d) := by
  induction table generalizing s d with
  | nil => simpa using h
  | cons e table ih => simpa [drawClass] using ih (h.add _).1

theorem idOf?_eq (h : Sized .classes ids s d) (name : String) :
    idOf? d name =
      ((s.items.map Sketch.Item.label).findIdx? (· == name)).map (ids.nth "node") := by
  have hsame (item : Sketch.Item) (id : String) :
      (fun n : Node α => n.label == name) (item.toNode .classes id) =
        (fun item : Sketch.Item => item.label == name) item := rfl
  rw [idOf?, h.map_id_find? (fun _ _ => rfl) hsame, List.findIdx?_map]
  rfl

def missing? (names : List String) (r : Relation) : Option String :=
  match resolve names r with
  | .ok _ => none
  | .error name => some name

theorem note_eraseDups (names : List String) (name : String) :
    note names.eraseDups name = (names ++ [name]).eraseDups := by
  rw [note, eraseDups_concat]
  simp

theorem drawRelation_eq (h : Sized .classes ids s d) (noted : List String) (r : Relation) :
    drawRelation (d, noted) r =
      match resolve (s.items.map Sketch.Item.label) r with
      | .ok t =>
          (d.connect (ids.nth "node" t.source) (ids.nth "node" t.target) t.kind t.label t.order,
            noted)
      | .error name => (d, note noted name) := by
  rw [drawRelation, idOf?_eq h, idOf?_eq h, resolve]
  cases (s.items.map Sketch.Item.label).findIdx? (· == r.source) with
  | none => rfl
  | some i => cases (s.items.map Sketch.Item.label).findIdx? (· == r.target) <;> rfl

theorem mirrors_foldl_drawRelation (h : Sized .classes ids s d) (rs : List Relation) :
    let names := s.items.map Sketch.Item.label
    Sized .classes ids
        { s with ties := s.ties ++ rs.filterMap fun r => (resolve names r).toOption }
        (rs.foldl drawRelation (d, [])).1 ∧
      (rs.foldl drawRelation (d, [])).2 = (rs.filterMap (missing? names)).eraseDups := by
  intro names
  induction rs using List.reverseRecOn with
  | nil => exact ⟨by simpa using h, rfl⟩
  | append_singleton rs r ih =>
      obtain ⟨hdraft, hmissing⟩ := ih
      have hstep := drawRelation_eq hdraft (rs.foldl drawRelation (d, [])).2 r
      rw [List.foldl_concat, hstep, List.filterMap_append, List.filterMap_append]
      cases hr : resolve names r with
      | ok t =>
          have htie : (resolve names r).toOption = some t := by
            rw [hr]
            rfl
          have hties : [r].filterMap (fun r => (resolve names r).toOption) = [t] := by
            simp [htie]
          have hnone : [r].filterMap (missing? names) = [] := by simp [missing?, hr]
          obtain ⟨hsource, htarget⟩ := lt_of_resolve htie
          rw [List.length_map] at hsource htarget
          rw [hties, hnone, ← List.append_assoc, List.append_nil]
          exact ⟨hdraft.connect (t := t) hsource htarget, hmissing⟩
      | error name =>
          have hties : [r].filterMap (fun r => (resolve names r).toOption) = [] := by
            simp [hr, Except.toOption]
          have hname : [r].filterMap (missing? names) = [name] := by simp [missing?, hr]
          rw [hties, hname, List.append_nil, ← note_eraseDups, ← hmissing]
          exact ⟨hdraft, rfl⟩

/-- The second pass comes to the sketch of the statements. -/
theorem mirrors_draw (ids : IdSupply) (statements : List Statement) :
    Sized .classes ids (sketch statements) (draw statements ids : Draft α × _).1 ∧
      (draw statements ids : Draft α × _).2 = unresolved statements := by
  have hstart := (Mirrors.start (α := α) (Sketch.Item.toNode .classes) ids).titled
    (titleOf statements)
  have h := mirrors_foldl_drawRelation (mirrors_foldl_drawClass hstart (classTable statements))
    (relations statements)
  have hnames : ((classTable statements).map fun e =>
      (⟨.classBox, e.name, some (.members e.compartments)⟩ : Sketch.Item)).map Sketch.Item.label =
        (classTable statements).map ClassEntry.name := by
    rw [List.map_map]
    rfl
  simp only [Sketch.empty, List.nil_append, hnames] at h
  exact h

end ClassText

def Reading.numbered (kind : DiagramKind) (r : Reading) (ids : IdSupply) : Diagram α × IdSupply :=
  (r.sketch.toDiagram kind r.skipped r.unresolved ids, r.sketch.spend ids)

theorem Sized.numbered_eq {kind : DiagramKind} (h : Sized kind ids s d) (skipped : List Nat)
    (unresolved : List String) :
    (({ kind, nodes := d.nodes, edges := d.edges, title := d.title, skipped, unresolved } :
      Diagram α), d.ids) = Reading.numbered kind ⟨s, skipped, unresolved⟩ ids := by
  rw [h.nodes, h.edges, h.title, h.supply]
  rfl

theorem Outline.Grows.numbered_eq {entries : List Entry} (h : Grows ids entries d)
    (skipped : List Nat) :
    (({ kind := .mindmap, nodes := settle d, edges := d.edges, title := d.title, skipped,
        unresolved := [] } : Diagram α), d.ids) =
      Reading.numbered .mindmap ⟨sketch entries, skipped, []⟩ ids := by
  have hlength := (length_sprouts entries).trans (length_items entries).symm
  rw [h.settle_eq skipped [], h.mirrors.edges, h.mirrors.title, h.mirrors.supply, Sketch.spend,
    hlength]
  rfl

namespace Language

variable {l : Language}

theorem drawn_eq_of_stepsBy (hl : l ≠ .outline) {σ : Type} {recognise : Line → Option σ}
    {draw : Draft α → σ → Draft α} {apply : Sketch → σ → Sketch}
    (h : StepsBy l.advance recognise draw)
    (hdraw : ∀ statements : List σ,
      Sized l.kind ids (statements.foldl apply .empty) (statements.foldl draw (.start ids)))
    (lines : List Line) :
    (l.drawn lines ids : Diagram α × IdSupply) =
      Reading.numbered l.kind
        ⟨(readLines recognise lines).1.foldl apply .empty, (readLines recognise lines).2, []⟩
        ids := by
  have hnodes (d : Draft α) : l.nodes d = d.nodes := by
    cases l <;> first | rfl | exact absurd rfl hl
  rw [← (hdraw (readLines recognise lines).1).numbered_eq, drawn, diagram, hnodes, run,
    h.foldl_advance]
  rfl

theorem drawn_eq (l : Language) (lines : List Line) (ids : IdSupply) :
    (l.drawn lines ids : Diagram α × IdSupply) = (read l.kind lines).numbered l.kind ids := by
  have hstart (kind : DiagramKind) : Sized kind ids .empty (.start ids : Draft α) :=
    Mirrors.start _ ids
  cases l with
  | flow =>
      exact drawn_eq_of_stepsBy (l := .flow) (by decide) (Flow.stepsBy .flow Flow.shapeOf)
        (fun statements => List.foldl_rel (hstart _) fun statement _ _ _ h =>
          Flow.mirrors_draw h statement) lines
  | generic =>
      exact drawn_eq_of_stepsBy (l := .generic) (by decide)
        (Flow.stepsBy .generic fun _ => .generic)
        (fun statements => List.foldl_rel (hstart _) fun statement _ _ _ h =>
          Flow.mirrors_draw h statement) lines
  | conversation =>
      have hrow (statements : List Conversation.Statement) := List.foldl_rel (l := statements)
        (r := fun s (d : Draft α) => Sized .sequence ids s d ∧ d.row = s.ties.length)
        ⟨hstart _, rfl⟩ fun statement _ _ _ h => Conversation.mirrors_draw h.1 h.2 statement
      exact drawn_eq_of_stepsBy (l := .conversation) (by decide) Conversation.stepsBy
        (fun statements => (hrow statements).1) lines
  | useCase =>
      exact drawn_eq_of_stepsBy (l := .useCase) (by decide) UseCase.stepsBy
        (fun statements => List.foldl_rel (hstart _) fun statement _ _ _ h =>
          UseCase.mirrors_draw h statement) lines
  | outline =>
      rw [drawn, diagram, run, advance, Outline.stepsBy.foldl_advance]
      exact (Outline.grows_foldl ids _).numbered_eq _

end Language

theorem drawn_eq (kind : DiagramKind) (lines : List Line) (ids : IdSupply) :
    (drawn kind lines ids : Diagram α × IdSupply) = (read kind lines).numbered kind ids := by
  cases kind with
  | classes =>
      obtain ⟨hdraft, hmissing⟩ :=
        ClassText.mirrors_draw (α := α) ids (ClassText.readFrom .outside lines).1
      rw [drawn, ClassText.drawn]
      dsimp only
      rw [hdraft.numbered_eq, hmissing]
      rfl
  | sequence => exact Language.conversation.drawn_eq lines ids
  | flow => exact Language.flow.drawn_eq lines ids
  | generic => exact Language.generic.drawn_eq lines ids
  | useCase => exact Language.useCase.drawn_eq lines ids
  | mindmap => exact Language.outline.drawn_eq lines ids

theorem items_read_nil (kind : DiagramKind) : (read kind []).sketch.items = [] := by
  cases kind <;> rfl

variable {kind : DiagramKind} {text : List Char}

theorem parseFrom_eq (kind : DiagramKind) (text : List Char) (ids : IdSupply) :
    let lines := sourceLines (marks kind) text
    let reading := read kind lines
    (parseFrom kind text ids : Except ReadError (Diagram α) × IdSupply) =
      (if lines.isEmpty then .error .emptyInput
        else if reading.sketch.items.isEmpty then .error (.noNodes kind)
        else .ok (reading.sketch.toDiagram kind reading.skipped reading.unresolved ids),
        reading.sketch.spend ids) := by
  intro lines reading
  have hempty : (reading.sketch.toDiagram kind reading.skipped reading.unresolved ids :
      Diagram α).nodes.isEmpty = reading.sketch.items.isEmpty := by
    rw [Bool.eq_iff_iff, List.isEmpty_iff_length_eq_zero, List.isEmpty_iff_length_eq_zero,
      Sketch.length_nodes_toDiagram]
  rw [parseFrom, drawn_eq]
  dsimp only [Reading.numbered]
  rw [finish, hempty]
  rfl

theorem parseWith_eq_ite (kind : DiagramKind) (text : List Char) (ids : IdSupply) :
    let lines := sourceLines (marks kind) text
    let reading := read kind lines
    parseWith (α := α) kind text ids =
      if lines.isEmpty then .error .emptyInput
      else if reading.sketch.items.isEmpty then .error (.noNodes kind)
      else .ok (reading.sketch.toDiagram kind reading.skipped reading.unresolved ids,
        reading.sketch.spend ids) := by
  intro lines reading
  rw [parseWith, parseFrom_eq]
  dsimp only
  split
  · rfl
  split
  · rfl
  · rfl

theorem parseWith_eq_ok {ids rest : IdSupply} {d : Diagram α}
    (h : parseWith kind text ids = .ok (d, rest)) :
    let reading := read kind (sourceLines (marks kind) text)
    reading.sketch.items ≠ [] ∧ rest = reading.sketch.spend ids ∧
      d = reading.sketch.toDiagram kind reading.skipped reading.unresolved ids := by
  rw [parseWith_eq_ite] at h
  split at h
  · cases h
  split at h
  · cases h
  next hi =>
    cases h
    exact ⟨mt List.isEmpty_iff.2 hi, rfl, rfl⟩

theorem parseWith_eq (kind : DiagramKind) (text : List Char) (ids : IdSupply)
    (h : (read kind (sourceLines (marks kind) text)).sketch.items ≠ []) :
    let reading := read kind (sourceLines (marks kind) text)
    parseWith (α := α) kind text ids =
      .ok (reading.sketch.toDiagram kind reading.skipped reading.unresolved ids,
        reading.sketch.spend ids) := by
  have hlines : sourceLines (marks kind) text ≠ [] := fun hl => h (hl ▸ items_read_nil kind)
  rw [parseWith_eq_ite, if_neg (mt List.isEmpty_iff.1 hlines), if_neg (mt List.isEmpty_iff.1 h)]

end Source

end Drafting
