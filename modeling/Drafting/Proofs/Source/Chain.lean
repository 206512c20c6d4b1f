import Drafting.Number.Binary32
import Drafting.Proofs.Source.Arrow
import Drafting.Proofs.Source.Grammar.Flow
import Drafting.Proofs.Source.Mirror

namespace Drafting.Source.Flow

open Text

variable {shape : String → NodeKind} {s : Sketch} {names ns : List String} {label : Option String}
  {drawn : List Arrow}

def itemOf (shape : String → NodeKind) (name : String) : Sketch.Item := ⟨shape name, name, none⟩

def Lists (shape : String → NodeKind) (s : Sketch) (names : List String) : Prop :=
  s.items = names.eraseDups.map (itemOf shape)

theorem Lists.ensure (h : Lists shape s names) (name : String) :
    Lists shape (s.ensure (·.label == name) (itemOf shape name)).1 (names ++ [name]) := by
  have hfound : (s.items.findIdx? (·.label == name)).isSome ↔ name ∈ names := by
    rw [List.findIdx?_isSome, h]
    simp [itemOf]
  rw [Lists, Sketch.ensure, eraseDups_concat]
  cases hf : s.items.findIdx? (·.label == name) with
  | some i =>
      rw [hf] at hfound
      rw [if_pos (hfound.1 rfl)]
      exact h
  | none =>
      rw [hf] at hfound
      rw [if_neg (by simpa using hfound), List.map_append]
      exact congrArg (· ++ [itemOf shape name]) h

theorem Lists.ensureAll (h : Lists shape s names) (ns : List String) :
    Lists shape (ensureAll shape s ns).1 (names ++ ns) ∧
      (ensureAll shape s ns).2.map (ensureAll shape s ns).1.labelAt? = ns.map some := by
  induction ns generalizing s names with
  | nil => exact ⟨by rwa [List.append_nil], rfl⟩
  | cons name ns ih =>
      let next := s.ensure (·.label == name) (itemOf shape name)
      obtain ⟨hlists, hlabels⟩ := ih (h.ensure name)
      obtain ⟨item, hitem, hlabel⟩ := s.exists_getElem?_ensure (·.label == name) Sketch.Item.label
        (itemOf shape name) fun _ => beq_iff_eq
      have hat : next.1.labelAt? next.2 = some name := by
        rw [Sketch.labelAt?, hitem]
        exact congrArg some hlabel
      rw [List.append_assoc] at hlists
      refine ⟨hlists, ?_⟩
      have hlast := Sketch.labelAt?_of_prefix (items_prefix_ensureAll shape next.1 ns) hat
      exact congrArg₂ List.cons hlast hlabels

theorem ties_ensureAll (shape : String → NodeKind) (s : Sketch) (ns : List String) :
    (ensureAll shape s ns).1.ties = s.ties := by
  induction ns generalizing s with
  | nil => rfl
  | cons name ns ih => exact (ih _).trans (s.ties_ensure _ _)

def links (label : Option String) (names : List String) : List Arrow :=
  (names.zip names.tail).mapIdx fun i p =>
    ⟨p.1, p.2, .flow, if i + 2 = names.length then label else none, none⟩

theorem links_cons_cons (label : Option String) (a b : String) (rest : List String) :
    links label (a :: b :: rest) =
      ⟨a, b, .flow, if rest.isEmpty then label else none, none⟩ :: links label (b :: rest) := by
  rw [links, links, List.tail_cons, List.tail_cons, List.zip_cons_cons, List.mapIdx_cons]
  congr 1
  · cases rest <;> rfl
  · refine congrArg (List.mapIdx · _) (funext fun i => funext fun p => ?_)
    simp only [List.length_cons, Nat.add_right_comm i 1 2, Nat.add_right_cancel_iff]

theorem map_arrow?_hops (label : Option String) {is : List Nat}
    (h : is.map s.labelAt? = ns.map some) :
    (hops label is).map s.arrow? = (links label ns).map some := by
  induction is generalizing ns with
  | nil =>
      obtain rfl := List.map_eq_nil_iff.1 h.symm
      rfl
  | cons i is ih =>
      cases ns with
      | nil => cases h
      | cons a ns =>
          obtain ⟨hi, his⟩ := List.cons.inj h
          cases is with
          | nil =>
              obtain rfl := List.map_eq_nil_iff.1 his.symm
              rfl
          | cons j is =>
              cases ns with
              | nil => cases his
              | cons b ns =>
                  obtain ⟨hj, hrest⟩ := List.cons.inj his
                  have hempty : is.isEmpty = ns.isEmpty := by
                    have hlength := congrArg List.length hrest
                    rw [List.length_map, List.length_map] at hlength
                    rw [Bool.eq_iff_iff, List.isEmpty_iff_length_eq_zero,
                      List.isEmpty_iff_length_eq_zero, hlength]
                  rw [hops, links_cons_cons, List.map_cons, List.map_cons, ih his, Sketch.arrow?,
                    hi, hj, hempty]
                  rfl

structure Shows (shape : String → NodeKind) (s : Sketch) (names : List String)
    (drawn : List Arrow) : Prop where
  lists : Lists shape s names
  draws : s.ties.map s.arrow? = drawn.map some

def Chain.labels (c : Chain) : List String := c.names.map String.ofList

def Chain.arrows (c : Chain) : List Arrow := links (c.label.map String.ofList) c.labels

/-- What has been drawn is still there when there are more items. -/
theorem Shows.map_arrow?_of_prefix (h : Shows shape s names drawn) {s' : Sketch}
    (hp : s.items <+: s'.items) : s.ties.map s'.arrow? = drawn.map some := by
  rw [← h.draws]
  refine List.map_congr_left fun t ht => ?_
  have hm : s.arrow? t ∈ drawn.map some := h.draws ▸ List.mem_map_of_mem ht
  obtain ⟨a, -, ha⟩ := List.mem_map.1 hm
  rw [← ha]
  exact Sketch.arrow?_of_prefix hp ha.symm

theorem Shows.apply (h : Shows shape s names drawn) (c : Chain) :
    Shows shape (apply shape s c.said) (names ++ c.labels) (drawn ++ c.arrows) := by
  obtain ⟨hlists, hlabels⟩ := h.lists.ensureAll c.labels
  let next := (ensureAll shape s c.labels).1
  have hold := h.map_arrow?_of_prefix (items_prefix_ensureAll shape s c.labels)
  have hnew := map_arrow?_hops (c.label.map String.ofList) hlabels
  refine ⟨hlists, ?_⟩
  calc (next.ties ++ hops (c.label.map String.ofList) (ensureAll shape s c.labels).2).map
          next.arrow?
      = s.ties.map next.arrow? ++ c.arrows.map some := by
        rw [List.map_append, ties_ensureAll]
        exact congrArg (s.ties.map next.arrow? ++ ·) hnew
    _ = (drawn ++ c.arrows).map some := by rw [hold, List.map_append]

theorem shows_sketch (shape : String → NodeKind) (chains : List Chain) :
    Shows shape (sketch shape (chains.map Chain.said)) (chains.flatMap Chain.labels)
      (chains.flatMap Chain.arrows) := by
  induction chains using List.reverseRecOn with
  | nil => exact ⟨rfl, rfl⟩
  | append_singleton chains c ih =>
      rw [List.map_append, List.flatMap_append, List.flatMap_append, List.flatMap_singleton,
        List.flatMap_singleton, sketch, List.foldl_append, ← sketch]
      exact ih.apply c

section

variable {chains : List Chain}

/-- The lines of chains can be told from comments, titles and a header. -/
structure IsChainText (chains : List Chain) : Prop where
  writable : ∀ c ∈ chains, c.IsWritable
  uncommented : ∀ c ∈ chains, ∀ mark ∈ comments, ¬ mark <+: c.write
  untitled : ∀ c ∈ chains, title? c.write = none
  unheaded : ∀ c ∈ chains.head?, header? c.write = none

def write (chains : List Chain) : List Char := ['\n'].intercalate (chains.map Chain.write)

theorem Chain.IsWritable.isContent {c : Chain} (h : c.IsWritable)
    (hmarks : ∀ mark ∈ comments, ¬ mark <+: c.write) : IsContent comments c.write :=
  ⟨h.isTrimmed_write, List.append_ne_nil_of_left_ne_nil h.body_ne_nil _, hmarks⟩

theorem IsChainText.readLines_eq (h : IsChainText chains) (hne : chains ≠ []) :
    readLines statement? (sourceLines comments (write chains)) = (chains.map Chain.said, []) := by
  have htexts : (sourceLines comments (write chains)).map Line.text = chains.map Chain.write := by
    refine map_text_sourceLines_intercalate (by simpa using hne) ?_ ?_
    · refine List.forall_mem_map.2 fun c hc => ?_
      exact ⟨(h.writable c hc).isContent (h.uncommented c hc),
        (h.writable c hc).newline_not_mem_write⟩
    · intro text htext
      obtain ⟨c, hc, rfl⟩ : ∃ c ∈ chains.head?, c.write = text := by
        simpa [List.head?_map] using htext
      exact h.unheaded c hc
  exact readLines_of_written htexts fun c hc line =>
    statement?_write (h.writable c hc) (h.untitled c hc)

def shapeIn : DiagramKind → String → NodeKind
  | .flow => shapeOf
  | _ => fun _ => .generic

/-- Chains are read as their graph, each name once and each hop once, and no line is left out. -/
theorem parseWith_write_chains {α : Type} [Scalar α] {kind : DiagramKind}
    (hkind : kind = .flow ∨ kind = .generic) (hne : chains ≠ []) (h : IsChainText chains)
    (ids : IdSupply) :
    ∃ (d : Diagram α) (rest : IdSupply), parseWith kind (write chains) ids = .ok (d, rest) ∧
      d.ids.Nodup ∧
      d.nodes.map (fun n => (n.label, n.kind)) =
        (chains.flatMap Chain.labels).eraseDups.map (fun name => (name, shapeIn kind name)) ∧
      d.edges.map d.arrow? = (chains.flatMap Chain.arrows).map some ∧ d.skipped = [] := by
  have hread : read kind (sourceLines (marks kind) (write chains)) =
      ⟨sketch (shapeIn kind) (chains.map Chain.said), [], []⟩ := by
    have hlines := h.readLines_eq hne
    rcases hkind with rfl | rfl <;> simp only [read, marks, hlines] <;> rfl
  have hshows := shows_sketch (shapeIn kind) chains
  have hitems : (sketch (shapeIn kind) (chains.map Chain.said)).items ≠ [] := by
    obtain ⟨c, rest, rfl⟩ := List.exists_cons_of_ne_nil hne
    rw [hshows.lists, Ne, List.map_eq_nil_iff, eraseDups_eq_nil_iff]
    exact List.cons_ne_nil _ _
  have hparse := parseWith_eq (α := α) kind (write chains) ids (by rwa [hread])
  rw [hread] at hparse
  refine ⟨_, _, hparse, Sketch.nodup_ids_toDiagram, ?_, ?_, rfl⟩
  · rw [Sketch.map_nodes_toDiagram (u := fun i => (i.label, i.kind)) fun _ _ => rfl, hshows.lists,
      List.map_map]
    rfl
  · rw [(onePerLabel_sketch _ _).tied.map_arrow?_edges, hshows.draws]

/-- A chain that comes back to its first name, with dashes and arrow heads in its names and an arrow
in its label, and a name that stands alone. -/
def backChain : List Chain :=
  [⟨"a-b".toList, [(.long, ">c -".toList), (.short, "a-b".toList)], some "x: y --> z".toList⟩,
    ⟨"Start".toList, [], none⟩]

theorem backChain_parseWith_write :
    ∃ (d : Diagram Float32) (rest : IdSupply),
      parseWith .flow (write backChain) .fresh = .ok (d, rest) ∧
      d.nodes.map (fun n => (n.label, n.kind)) =
        [("a-b", .process), (">c -", .process), ("Start", .start)] ∧
      d.edges.map d.arrow? = [some ⟨"a-b", ">c -", .flow, none, none⟩,
        some ⟨">c -", "a-b", .flow, some "x: y --> z", none⟩] ∧ d.skipped = [] := by
  have hnames : ∀ name ∈ ["a-b".toList, ">c -".toList, "Start".toList], IsFlowName name := by
    simp only [List.forall_mem_cons]
    refine ⟨?_, ?_, ?_, fun _ h => absurd h List.not_mem_nil⟩
    all_goals
      refine ⟨by decide, isTrimmed_iff.2 (by decide +kernel), ?_, by decide⟩
      simp only [List.forall_mem_cons]
      exact ⟨by decide, by decide, by decide, fun _ h => absurd h List.not_mem_nil⟩
  have htext : IsChainText backChain := by
    constructor
    case writable =>
      refine List.forall_mem_cons.2 ⟨⟨?_, ?_, ?_⟩, List.forall_mem_singleton.2 ⟨?_, ?_, ?_⟩⟩
      · exact fun name hn => hnames name (by revert name; decide)
      · rintro label ⟨⟩
        exact ⟨by decide, isTrimmed_iff.2 (by decide +kernel), by decide⟩
      · decide
      · exact fun name hn => hnames name (by revert name; decide)
      · rintro label ⟨⟩
      · decide
    all_goals decide +kernel
  obtain ⟨d, rest, hparse, -, hnodes, hedges, hskipped⟩ :=
    parseWith_write_chains (α := Float32) (.inl rfl) (by decide) htext .fresh
  exact ⟨d, rest, hparse, hnodes.trans (by decide +kernel), hedges, hskipped⟩

/-- Without a chain there is no text. -/
theorem parseWith_write_no_chains :
    IsChainText [] ∧
      parseWith (α := Float32) .flow (write []) .fresh = .error .emptyInput ∧
      ¬ ∀ (kind : DiagramKind) (chains : List Chain) (ids : IdSupply),
        kind = .flow ∨ kind = .generic → IsChainText chains →
          ∃ (d : Diagram Float32) (rest : IdSupply),
            parseWith kind (write chains) ids = .ok (d, rest) := by
  have htext : IsChainText [] := by constructor <;> simp
  refine ⟨htext, rfl, fun h => ?_⟩
  obtain ⟨d, rest, hparse⟩ := h .flow [] .fresh (.inl rfl) htext
  cases hparse

end

end Drafting.Source.Flow
