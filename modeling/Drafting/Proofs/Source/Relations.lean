import Drafting.Proofs.Source.Arrow
import Drafting.Proofs.Source.Mirror
import Drafting.Proofs.Source.Visits

namespace Drafting.Source.ClassText

variable {mode : Mode} {line : Line} {lines : List Line} {ss : List Statement}
  {names : List String} {r : Relation} {name : String}

/-- What statements come to, when members add nothing to it and a line between classes adds to it
what stands on that line. -/
theorem filterMap_readFrom {β : Type} {f : Statement → Option β} {g : List Char → Option β}
    (hm : ∀ owner m, f (.member owner m) = none)
    (hg : ∀ text, (outsideStep text).statements.filterMap f = (g text).toList)
    (mode : Mode) (lines : List Line) :
    (readFrom mode lines).1.filterMap f = (topLines mode lines).filterMap g := by
  induction lines generalizing mode with
  | nil => rfl
  | cons line lines ih =>
      rw [readFrom]
      dsimp only
      rw [List.filterMap_append, ih]
      cases h : isTopLevel mode line.text with
      | true =>
          rw [topLines_cons_of_isTopLevel h, step_of_isTopLevel h, hg, List.filterMap_cons]
          cases g line.text <;> rfl
      | false =>
          obtain ⟨owner, body, -, hbody⟩ := exists_bodyStep h
          rw [topLines_cons_of_not h, hbody, statements_bodyStep, filterMap_member (hm owner),
            List.nil_append]

def headings (mode : Mode) (lines : List Line) : List (String × Option String) :=
  (topLines mode lines).filterMap heading?

def asked (mode : Mode) (lines : List Line) : List Relation :=
  (topLines mode lines).filterMap relation?

theorem filterMap_heading?_readFrom (mode : Mode) (lines : List Line) :
    (readFrom mode lines).1.filterMap Statement.heading? = headings mode lines :=
  filterMap_readFrom (fun _ _ => rfl) (fun text => (says_outsideStep text).filterMap_heading?)
    mode lines

theorem filterMap_asked?_readFrom (mode : Mode) (lines : List Line) :
    (readFrom mode lines).1.filterMap Statement.asked? = asked mode lines :=
  filterMap_readFrom (fun _ _ => rfl) (fun text => (says_outsideStep text).filterMap_asked?)
    mode lines

section

theorem headings_cons (mode : Mode) (line : Line) (lines : List Line) :
    headings mode (line :: lines) =
      headings mode [line] ++ headings (step mode line.text).mode lines := by
  cases h : isTopLevel mode line.text with
  | true =>
      simp only [headings, topLines_cons_of_isTopLevel h, ← step_of_isTopLevel h]
      exact List.filterMap_append (l := [line.text])
  | false =>
      simp only [headings, topLines_cons_of_not h]
      rfl

/-- Behind the class that a line declares, it only speaks of that one or of the one that the reader
was busy with. -/
theorem exists_subjects (mode : Mode) (line : Line) :
    ∃ more, (step mode line.text).statements.filterMap Statement.subject? =
        (headings mode [line]).map Prod.fst ++ more ∧
      ∀ name, name ∈ more ∨ name ∈ (step mode line.text).mode.owner? →
        name ∈ (headings mode [line]).map Prod.fst ∨ name ∈ mode.owner? := by
  have hsubject (owner : String) (members : List Member) :
      ∀ name ∈ (members.map (Statement.member owner)).filterMap Statement.subject?,
        name = owner := by
    simp [Statement.subject?]
  cases h : isTopLevel mode line.text with
  | false =>
      obtain ⟨owner, body, howner, hbody⟩ := exists_bodyStep h
      have hnone : headings mode [line] = [] := by
        rw [headings, topLines_cons_of_not h]
        rfl
      rw [hnone, hbody, statements_bodyStep]
      refine ⟨_, rfl, fun name hname => .inr ?_⟩
      have hself : name = owner := hname.elim (hsubject owner _ name)
        (owner_mode_bodyStep owner body name)
      exact hself ▸ howner
  | true =>
      have hone : headings mode [line] = (heading? line.text).toList := by
        rw [headings, topLines_cons_of_isTopLevel h]
        cases hh : heading? line.text <;> simp [hh, topLines, visits]
      have hsays := says_outsideStep line.text
      rw [hone, step_of_isTopLevel h]
      generalize outsideStep line.text = s at hsays
      cases hsays with
      | declare hd hm =>
          rw [heading?, hd]
          refine ⟨_, rfl, fun name hname => .inl (List.mem_singleton.2 ?_)⟩
          exact hname.elim (hsubject _ _ name) (hm name)
      | relation hd | title hd | nothing hd =>
          rw [heading?, hd]
          exact ⟨[], rfl, by simp [Mode.owner?]⟩

/-- Members belong to classes that are declared above them. -/
theorem eraseDups_subjects {seen : List String} (h : ∀ owner ∈ mode.owner?, owner ∈ seen) :
    (seen ++ (readFrom mode lines).1.filterMap Statement.subject?).eraseDups =
      (seen ++ (headings mode lines).map Prod.fst).eraseDups := by
  induction lines generalizing mode seen with
  | nil => rfl
  | cons line lines ih =>
      let own := (headings mode [line]).map Prod.fst
      obtain ⟨more, hmore, hknown⟩ := exists_subjects mode line
      have hseen : ∀ name, name ∈ more ∨ name ∈ (step mode line.text).mode.owner? →
          name ∈ seen ++ own := fun name hname =>
        List.mem_append.2 ((hknown name hname).symm.imp (h name) id)
      calc (seen ++ (readFrom mode (line :: lines)).1.filterMap Statement.subject?).eraseDups
          = ((seen ++ own) ++ (more ++ (readFrom (step mode line.text).mode lines).1.filterMap
              Statement.subject?)).eraseDups := by
            rw [readFrom]
            dsimp only
            rw [List.filterMap_append, hmore]
            simp only [List.append_assoc, own]
        _ = ((seen ++ own) ++ (readFrom (step mode line.text).mode lines).1.filterMap
              Statement.subject?).eraseDups :=
            eraseDups_append_of_subset (fun name hname => hseen name (.inl hname)) _
        _ = ((seen ++ own) ++ (headings (step mode line.text).mode lines).map Prod.fst).eraseDups :=
            ih fun name hname => hseen name (.inr hname)
        _ = (seen ++ (headings mode (line :: lines)).map Prod.fst).eraseDups := by
            rw [headings_cons, List.map_append, List.append_assoc]

def declared (headings : List (String × Option String)) : List String :=
  (headings.map Prod.fst).eraseDups

theorem names_classTable_readFrom (lines : List Line) :
    (classTable (readFrom .outside lines).1).map ClassEntry.name =
      declared (headings .outside lines) := by
  rw [names_classTable]
  exact @eraseDups_subjects .outside lines [] (by simp [Mode.owner?])

end

section

def lastParent? (headings : List (String × Option String)) (name : String) : Option String :=
  (headings.filterMap fun h => if h.1 = name then h.2 else none).getLast?

theorem lastParent?_concat (headings : List (String × Option String)) (name : String)
    (parent : Option String) (other : String) :
    lastParent? (headings ++ [(name, parent)]) other =
      if name = other then parent.or (lastParent? headings other)
      else lastParent? headings other := by
  rw [lastParent?, List.filterMap_append, List.getLast?_append]
  by_cases h : name = other
  · cases parent <;> simp [lastParent?, h]
  · simp [lastParent?, h]

theorem lastParent?_eq_none {headings : List (String × Option String)}
    (h : name ∉ headings.map Prod.fst) : lastParent? headings name = none := by
  refine List.getLast?_eq_none_iff.2 (List.filterMap_eq_nil_iff.2 fun p hp => if_neg ?_)
  rintro rfl
  exact h (List.mem_map_of_mem hp)

theorem mem_names_classTable_of_heading
    (h : name ∈ (ss.filterMap Statement.heading?).map Prod.fst) :
    name ∈ (classTable ss).map ClassEntry.name := by
  obtain ⟨p, hp, rfl⟩ := List.mem_map.1 h
  obtain ⟨s, hs, hheading⟩ := List.mem_filterMap.1 hp
  rw [names_classTable, List.mem_eraseDups]
  refine List.mem_filterMap.2 ⟨s, hs, ?_⟩
  cases s with
  | declare name parent => exact congrArg (Option.map Prod.fst) hheading
  | member | relation | title => cases hheading

theorem parent_of_mem_classTable (ss : List Statement) :
    ∀ e ∈ classTable ss, e.parent = lastParent? (ss.filterMap Statement.heading?) e.name := by
  induction ss using List.reverseRecOn with
  | nil => exact fun _ h => absurd h List.not_mem_nil
  | append_singleton ss s ih =>
      have hnone {name : String} (h : name ∉ (classTable ss).map ClassEntry.name) :
          lastParent? (ss.filterMap Statement.heading?) name = none :=
        lastParent?_eq_none (mt mem_names_classTable_of_heading h)
      rw [classTable, List.foldl_concat, ← classTable, List.filterMap_append]
      cases s with
      | declare name parent =>
          rw [show [Statement.declare name parent].filterMap Statement.heading? =
            [(name, parent)] from rfl]
          simp only [lastParent?_concat]
          refine forall_mem_update ih (fun hnew => ?_) (fun e he hname => ?_) fun e he hname => ?_
          · rw [if_pos rfl, hnone hnew]
          · rw [if_pos hname.symm, he]
          · rw [if_neg (Ne.symm hname), he]
      | member owner m =>
          rw [show [Statement.member owner m].filterMap Statement.heading? = [] from rfl,
            List.append_nil]
          exact forall_mem_update ih (fun hnew => (hnone hnew).symm) (fun e he _ => he)
            fun e he _ => he
      | relation | title => exact (List.append_nil (ss.filterMap Statement.heading?)).symm ▸ ih

def inherited (headings : List (String × Option String)) : List Relation :=
  (declared headings).filterMap fun name =>
    (lastParent? headings name).map fun parent => ⟨name, parent, .inheritance, none⟩

theorem relations_readFrom (lines : List Line) :
    relations (readFrom .outside lines).1 =
      inherited (headings .outside lines) ++ asked .outside lines := by
  have hparents : ((classTable (readFrom .outside lines).1).filterMap fun e =>
      e.parent.map fun p => (⟨e.name, p, .inheritance, none⟩ : Relation)) =
        inherited (headings .outside lines) := by
    rw [inherited, ← names_classTable_readFrom, List.filterMap_map]
    refine List.filterMap_congr fun e he => ?_
    rw [parent_of_mem_classTable _ e he, filterMap_heading?_readFrom]
    rfl
  rw [relations, hparents, ← filterMap_asked?_readFrom]
  rfl

end

section

/-- A relation is resolved to the positions of its two names, or stopped by one that is not there;
the first name is looked at first. -/
inductive Resolves (names : List String) (r : Relation) : Except String Sketch.Tie → Prop
  | tie {i j : Nat} (hs : names[i]? = some r.source) (ht : names[j]? = some r.target) :
      Resolves names r (.ok ⟨i, j, r.kind, r.label, none⟩)
  | noTarget (hs : r.source ∈ names) (ht : r.target ∉ names) : Resolves names r (.error r.target)
  | noSource (hs : r.source ∉ names) : Resolves names r (.error r.source)

theorem getElem?_of_findIdx? {i : Nat} (h : names.findIdx? (· == name) = some i) :
    names[i]? = some name := by
  obtain ⟨hi, he, -⟩ := List.findIdx?_eq_some_iff_getElem.1 h
  rw [List.getElem?_eq_getElem hi, beq_iff_eq.1 he]

theorem not_mem_of_findIdx? (h : names.findIdx? (· == name) = none) : name ∉ names := by
  intro hm
  have hne := List.findIdx?_eq_none_iff.1 h name hm
  rw [beq_self_eq_true] at hne
  cases hne

theorem resolves (names : List String) (r : Relation) : Resolves names r (resolve names r) := by
  rw [resolve]
  split
  next hs ht => exact .tie (getElem?_of_findIdx? hs) (getElem?_of_findIdx? ht)
  next hs ht =>
    exact .noTarget (List.mem_of_getElem? (getElem?_of_findIdx? hs)) (not_mem_of_findIdx? ht)
  next hs => exact .noSource (not_mem_of_findIdx? hs)

def Relation.arrow (r : Relation) : Arrow := ⟨r.source, r.target, r.kind, r.label, none⟩

theorem map_arrow?_resolve {s : Sketch} (h : s.items.map Sketch.Item.label = names)
    (r : Relation) : (resolve names r).toOption.map s.arrow? =
      if r.source ∈ names ∧ r.target ∈ names then some (some r.arrow) else none := by
  have hr := resolves names r
  generalize resolve names r = result at hr
  cases hr with
  | tie hs ht =>
      rw [if_pos ⟨List.mem_of_getElem? hs, List.mem_of_getElem? ht⟩]
      rw [← h, List.getElem?_map] at hs ht
      rw [Except.toOption, Option.map_some, Sketch.arrow?, Sketch.labelAt?, Sketch.labelAt?, hs, ht]
      rfl
  | noTarget hs ht =>
      rw [if_neg fun hm => ht hm.2]
      rfl
  | noSource hs =>
      rw [if_neg fun hm => hs hm.1]
      rfl

/-- The relations that make ties are those whose two ends are there. -/
theorem map_arrow?_ties (ss : List Statement) :
    (sketch ss).ties.map (sketch ss).arrow? =
      ((relations ss).filter fun r => r.source ∈ (classTable ss).map ClassEntry.name ∧
        r.target ∈ (classTable ss).map ClassEntry.name).map (some ·.arrow) := by
  have hlabels := (labels_sketch ss).trans (names_classTable ss).symm
  have hfilter (p : Relation → Bool) (f : Relation → Option Arrow) (rs : List Relation) :
      (rs.filter p).map f = rs.filterMap fun r => if p r then some (f r) else none := by
    rw [← List.filterMap_eq_map, List.filterMap_filter]
    rfl
  rw [hfilter]
  refine (List.map_filterMap ..).trans (List.filterMap_congr fun r _ => ?_)
  rw [map_arrow?_resolve hlabels]
  simp only [decide_eq_true_eq]

theorem resolve_eq_error_iff : resolve names r = .error name ↔
    name ∉ names ∧ (r.source = name ∨ r.source ∈ names ∧ r.target = name) := by
  have hr := resolves names r
  generalize resolve names r = result at hr
  cases hr with
  | tie hs ht =>
      have hs := List.mem_of_getElem? hs
      have ht := List.mem_of_getElem? ht
      refine iff_of_false (by simp) ?_
      rintro ⟨hn, rfl | ⟨-, rfl⟩⟩
      · exact hn hs
      · exact hn ht
  | noTarget hs ht =>
      rw [Except.error.injEq]
      constructor
      · rintro rfl
        exact ⟨ht, .inr ⟨hs, rfl⟩⟩
      · rintro ⟨hn, rfl | ⟨-, h⟩⟩
        · exact absurd hs hn
        · exact h
  | noSource hs =>
      rw [Except.error.injEq]
      constructor
      · rintro rfl
        exact ⟨hs, .inl rfl⟩
      · rintro ⟨hn, h | ⟨h, -⟩⟩
        · exact h
        · exact absurd h hs

end

section

variable {α : Type} [Scalar α] {text : List Char} {ids rest : IdSupply} {d : Diagram α}

theorem eq_toDiagram_of_parseWith (h : parseWith .classes text ids = .ok (d, rest)) :
    let reading := readFrom .outside (sourceLines comments text)
    d = (sketch reading.1).toDiagram .classes reading.2 (unresolved reading.1) ids := by
  obtain ⟨-, -, rfl⟩ := parseWith_eq_ok h
  rfl

/-- A class text can be read when it has a class line. -/
theorem exists_parseWith_iff_headings (text : List Char) (ids : IdSupply) :
    (∃ (d : Diagram α) (rest : IdSupply), parseWith .classes text ids = .ok (d, rest)) ↔
      headings .outside (sourceLines comments text) ≠ [] := by
  let ss := (readFrom .outside (sourceLines comments text)).1
  have hlabels : (sketch ss).items.map Sketch.Item.label =
      declared (headings .outside (sourceLines comments text)) :=
    (labels_sketch ss).trans
      ((names_classTable ss).symm.trans (names_classTable_readFrom (sourceLines comments text)))
  have hitems : (sketch ss).items = [] ↔ headings .outside (sourceLines comments text) = [] := by
    rw [← List.map_eq_nil_iff (f := Sketch.Item.label), hlabels, declared, eraseDups_eq_nil_iff,
      List.map_eq_nil_iff]
  constructor
  · rintro ⟨d, rest, h⟩
    exact mt hitems.2 (parseWith_eq_ok h).1
  · exact fun h => ⟨_, _, parseWith_eq .classes text ids (mt hitems.1 h)⟩

/-- What is declared makes the nodes, and what is asked for the edges, wherever it stands in the
text: first the parents that the classes were last given, then the relations, and of both those
whose two ends are declared. -/
theorem parseWith_relations (h : parseWith .classes text ids = .ok (d, rest)) :
    let lines := topLines .outside (sourceLines comments text)
    let names := declared (lines.filterMap heading?)
    d.ids.Nodup ∧
      d.nodes.map (fun n => (n.kind, n.label)) = names.map (.classBox, ·) ∧
      d.edges.map d.arrow? =
        ((inherited (lines.filterMap heading?) ++ lines.filterMap relation?).filter fun r =>
          r.source ∈ names ∧ r.target ∈ names).map (some ·.arrow) ∧
      ∀ line, (∀ c, declaration? line = some c ↔ Heads line c) ∧
        ∀ r, relation? line = some r ↔ Relates line r := by
  obtain rfl := eq_toDiagram_of_parseWith h
  have hnames := names_classTable_readFrom (sourceLines comments text)
  refine ⟨Sketch.nodup_ids_toDiagram, ?_, ?_, fun line =>
    ⟨fun _ => declaration?_eq_some_iff, fun _ => relation?_eq_some_iff⟩⟩
  · rw [Sketch.map_nodes_toDiagram (u := fun i => (i.kind, i.label)) fun _ _ => rfl]
    refine Eq.trans ?_ (congrArg (List.map (NodeKind.classBox, ·)) hnames)
    rw [sketch, List.map_map, List.map_map]
    rfl
  · rw [(onePerLabel_sketch _).tied.map_arrow?_edges, map_arrow?_ties, relations_readFrom, hnames]
    rfl

/-- A class that is used before it is declared, one that is given two parents, a relation inside a
body, and a relation to a class that is never declared. -/
def lateDeclarations : List Char :=
  ['\n'].intercalate ["A --> B : uses".toList, "class B extends C \x7b".toList, "A --> C".toList,
    "\x7d".toList, "class A extends X".toList, "class C".toList, "class A extends B".toList,
    "C --|> D".toList]

theorem lateDeclarations_relations :
    ∃ (d : Diagram Float32) (rest : IdSupply),
      parseWith .classes lateDeclarations .fresh = .ok (d, rest) ∧
      d.nodes.map (fun n => (n.kind, n.label)) =
        [(.classBox, "B"), (.classBox, "A"), (.classBox, "C")] ∧
      d.edges.map d.arrow? = [some ⟨"B", "C", .inheritance, none, none⟩,
        some ⟨"A", "B", .inheritance, none, none⟩,
        some ⟨"A", "B", .association, some "uses", none⟩] := by
  have hlines : topLines .outside (sourceLines comments lateDeclarations) =
      ["A --> B : uses".toList, "class B extends C \x7b".toList, "class A extends X".toList,
        "class C".toList, "class A extends B".toList, "C --|> D".toList] := by
    decide +kernel
  have hheadings : headings .outside (sourceLines comments lateDeclarations) ≠ [] := by
    rw [headings, hlines]
    decide +kernel
  obtain ⟨d, rest, hparse⟩ :=
    (exists_parseWith_iff_headings (α := Float32) lateDeclarations .fresh).2 hheadings
  obtain ⟨-, hnodes, hedges, -⟩ := parseWith_relations hparse
  rw [hlines] at hnodes hedges
  exact ⟨d, rest, hparse, hnodes.trans (by decide +kernel), hedges.trans (by decide +kernel)⟩

theorem mem_unresolved_iff (lines : List Line) : name ∈ unresolved (readFrom .outside lines).1 ↔
    ∃ r ∈ inherited (headings .outside lines) ++ asked .outside lines,
      resolve (declared (headings .outside lines)) r = .error name := by
  rw [unresolved, names_classTable_readFrom, relations_readFrom, List.mem_eraseDups,
    List.mem_filterMap]
  refine exists_congr fun r => and_congr_right fun _ => ?_
  cases resolve (declared (headings .outside lines)) r <;> simp

theorem exists_inherited_iff {p : Relation → Prop} {headings : List (String × Option String)} :
    (∃ r ∈ inherited headings, p r) ↔
      ∃ c ∈ declared headings, ∃ parent, lastParent? headings c = some parent ∧
        p ⟨c, parent, .inheritance, none⟩ := by
  simp only [inherited, List.mem_filterMap, Option.map_eq_some_iff]
  constructor
  · rintro ⟨_, ⟨c, hc, parent, hp, rfl⟩, h⟩
    exact ⟨c, hc, parent, hp, h⟩
  · rintro ⟨c, hc, parent, hp, h⟩
    exact ⟨_, ⟨c, hc, parent, hp, rfl⟩, h⟩

/-- Each name that is reported is so once: it is undeclared, and either the parent that a declared
class was last given, or the first undeclared end of a relation. -/
theorem parseWith_unresolved_iff (h : parseWith .classes text ids = .ok (d, rest)) :
    let lines := topLines .outside (sourceLines comments text)
    let names := declared (lines.filterMap heading?)
    d.unresolved.Nodup ∧ ∀ name, name ∈ d.unresolved ↔ name ∉ names ∧
      ((∃ c ∈ names, lastParent? (lines.filterMap heading?) c = some name) ∨
        ∃ r ∈ lines.filterMap relation?, r.source = name ∨ r.source ∈ names ∧ r.target = name) := by
  obtain rfl := eq_toDiagram_of_parseWith h
  refine ⟨nodup_eraseDups _, fun name => (mem_unresolved_iff _).trans ?_⟩
  let heads := headings .outside (sourceLines comments text)
  let relations := asked .outside (sourceLines comments text)
  have hinherited : (∃ r ∈ inherited heads, resolve (declared heads) r = .error name) ↔
      name ∉ declared heads ∧ ∃ c ∈ declared heads, lastParent? heads c = some name := by
    simp only [exists_inherited_iff, resolve_eq_error_iff]
    constructor
    · rintro ⟨c, hc, parent, hp, hn, rfl | ⟨-, rfl⟩⟩
      · exact absurd hc hn
      · exact ⟨hn, c, hc, hp⟩
    · rintro ⟨hn, c, hc, hp⟩
      exact ⟨c, hc, name, hp, hn, .inr ⟨hc, rfl⟩⟩
  have hasked : (∃ r ∈ relations, resolve (declared heads) r = .error name) ↔
      name ∉ declared heads ∧
        ∃ r ∈ relations, r.source = name ∨ r.source ∈ declared heads ∧ r.target = name := by
    simp only [resolve_eq_error_iff]
    constructor
    · rintro ⟨r, hr, hn, h⟩
      exact ⟨hn, r, hr, h⟩
    · rintro ⟨hn, r, hr, h⟩
      exact ⟨r, hr, hn, h⟩
  simp only [List.mem_append, or_and_right, exists_or]
  exact (or_congr hinherited hasked).trans and_or_left.symm

def undeclaredEnds : List Char := "class A extends B\nA --> C\nD --> A\nC --> E".toList

theorem undeclaredEnds_unresolved :
    ∃ (d : Diagram Float32) (rest : IdSupply),
      parseWith .classes undeclaredEnds .fresh = .ok (d, rest) ∧
      d.unresolved = ["B", "C", "D"] ∧ d.unresolved.Nodup ∧ "E" ∉ d.unresolved := by
  have hparse := parseWith_eq (α := Float32) .classes undeclaredEnds .fresh
    (by decide +kernel)
  obtain ⟨hnodup, hmem⟩ := parseWith_unresolved_iff hparse
  refine ⟨_, _, hparse, by decide +kernel, hnodup, fun hx => ?_⟩
  exact absurd ((hmem "E").1 hx) (by decide +kernel)

def undeclaredPair : List Char := "class A \x7b\x7d\nB --> C".toList

/-- The second end of a relation is not reported when the first is undeclared as well. -/
theorem undeclaredPair_not_unresolved :
    (∃ (d : Diagram Float32) (rest : IdSupply),
      parseWith .classes undeclaredPair .fresh = .ok (d, rest) ∧ d.unresolved = ["B"]) ∧
      ¬ ∀ (text : List Char) (ids rest : IdSupply) (d : Diagram Float32),
        parseWith .classes text ids = .ok (d, rest) →
          let lines := topLines .outside (sourceLines comments text)
          let names := declared (lines.filterMap heading?)
          ∀ name, name ∈ d.unresolved ↔ name ∉ names ∧
            ((∃ c ∈ names, lastParent? (lines.filterMap heading?) c = some name) ∨
              ∃ r ∈ lines.filterMap relation?, r.source = name ∨ r.target = name) := by
  have hparse := parseWith_eq (α := Float32) .classes undeclaredPair .fresh
    (by decide +kernel)
  have hasked : (topLines .outside (sourceLines comments undeclaredPair)).filterMap relation? =
      [⟨"B", "C", .association, none⟩] := by decide +kernel
  refine ⟨⟨_, _, hparse, by decide +kernel⟩, fun h => ?_⟩
  have hc := (h _ _ _ _ hparse "C").2
    ⟨by decide +kernel, .inr ⟨_, hasked ▸ List.mem_singleton_self _, .inr rfl⟩⟩
  exact absurd hc (by decide +kernel)

end

end Drafting.Source.ClassText
