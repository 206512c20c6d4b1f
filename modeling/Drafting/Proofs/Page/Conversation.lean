import Mathlib.Data.Prod.Lex
import Drafting.Number.Binary32
import Drafting.Proofs.Link
import Drafting.Proofs.Page.Nodes

namespace Drafting

section

variable {α : Type}

def Edge.rowAt (e : Edge) (position : Nat) : Nat := e.order.getD position

def Link.key (l : Link α) : Nat ×ₗ Nat := toLex (l.edge.rowAt l.position, l.position)

end

namespace Page.Conversation

section

variable {β γ : Type} {n : Nat} {items run : List β}

theorem deal_map (g : β → γ) (n : Nat) (items : List β) :
    deal n (items.map g) = (deal n items).map (List.map g) := by
  fun_induction deal n items with
  | case1 items h =>
      rw [deal, dif_pos (by simpa using h)]
      rfl
  | case2 items h ih =>
      rw [deal, dif_neg (by simpa using h), ← List.map_take, ← List.map_drop, ih, List.map_cons]

theorem exists_eq_take_drop_of_mem_deal (h : run ∈ deal n items) :
    n ≠ 0 ∧ ∃ k < items.length, run = (items.drop k).take n := by
  fun_induction deal n items with
  | case1 items hn => cases h
  | case2 items hn ih =>
      obtain ⟨hitems, hn⟩ := not_or.1 hn
      rcases List.mem_cons.1 h with rfl | h
      · exact ⟨hn, 0, List.length_pos_iff.2 hitems, rfl⟩
      · obtain ⟨-, k, hk, rfl⟩ := ih h
        rw [List.length_drop] at hk
        exact ⟨hn, n + k, by omega, by rw [List.drop_drop]⟩

theorem subset_of_mem_deal (h : run ∈ deal n items) : run ⊆ items := by
  obtain ⟨-, k, -, rfl⟩ := exists_eq_take_drop_of_mem_deal h
  exact List.Subset.trans (List.take_subset _ _) (List.drop_subset _ _)

theorem deal_eq_nil (hn : n ≠ 0) : deal n items = [] ↔ items = [] := by
  rw [deal]
  split <;> simp_all

theorem flatten_deal (hn : n ≠ 0) (items : List β) : (deal n items).flatten = items := by
  fun_induction deal n items with
  | case1 items h => simp_all
  | case2 items h ih => rw [List.flatten_cons, ih, List.take_append_drop]

theorem ne_nil_of_mem_deal (h : run ∈ deal n items) : run ≠ [] := by
  obtain ⟨hn, k, hk, rfl⟩ := exists_eq_take_drop_of_mem_deal h
  rw [Ne, List.take_eq_nil_iff, List.drop_eq_nil_iff]
  omega

theorem length_le_of_mem_deal (h : run ∈ deal n items) : run.length ≤ n := by
  obtain ⟨-, k, -, rfl⟩ := exists_eq_take_drop_of_mem_deal h
  exact List.length_take_le n _

theorem length_of_mem_dropLast_deal (h : run ∈ (deal n items).dropLast) : run.length = n := by
  fun_induction deal n items with
  | case1 items hn => simp at h
  | case2 items hn ih =>
      by_cases hd : deal n (items.drop n) = []
      · simp [hd] at h
      · rw [List.dropLast_cons_of_ne_nil hd, List.mem_cons] at h
        rcases h with rfl | h
        · have hlt : ¬ items.length ≤ n := by
            rw [← List.drop_eq_nil_iff, ← deal_eq_nil (n := n) (by simp_all)]
            exact hd
          rw [List.length_take]
          omega
        · exact ih h

end

variable {α : Type} {d : Diagram α} {run : List (Link α)}

theorem before_ofLink {l m : Link α} :
    (Message.ofLink l).before (.ofLink m) ↔ l.key ≤ m.key := by
  rw [Link.key, Link.key, Prod.Lex.toLex_le_toLex, Message.before, decide_eq_true_iff]
  rfl

def spoken (d : Diagram α) : List (Link α) :=
  d.links.mergeSort fun l m => (Message.ofLink l).before (.ofLink m)

theorem messages_eq_map_spoken (d : Diagram α) :
    messages d = (spoken d).map Message.ofLink := by
  rw [spoken, List.map_mergeSort (s := Message.before) fun _ _ _ _ => rfl]
  rfl

theorem spoken_perm (d : Diagram α) : (spoken d).Perm d.links := List.mergeSort_perm _ _

theorem spoken_eq_nil : spoken d = [] ↔ d.connected = [] := by
  rw [← List.length_eq_zero_iff, (spoken_perm d).length_eq, Diagram.connected,
    List.length_eq_zero_iff, List.map_eq_nil_iff]

theorem pairwise_spoken (d : Diagram α) : (spoken d).Pairwise fun l m => l.key < m.key := by
  have hle : (spoken d).Pairwise fun l m => l.key ≤ m.key := by
    refine List.Pairwise.imp before_ofLink.1 (List.pairwise_mergeSort ?_ ?_ d.links)
    · intro a b c hab hbc
      rw [before_ofLink] at *
      exact hab.trans hbc
    · intro a b
      simpa [before_ofLink] using le_total a.key b.key
  have hne : (spoken d).Pairwise fun l m => l.position ≠ m.position :=
    List.pairwise_map.1 (((spoken_perm d).map Link.position).nodup_iff.2 d.nodup_position_links)
  refine hle.imp₂ (fun l m hle hne => lt_of_le_of_ne hle fun he => hne ?_) hne
  exact congrArg (fun k => (ofLex k).2) he

variable [Scalar α] {s : PageSettings α}

theorem messagesPerPage_ne_zero (s : PageSettings α) : messagesPerPage s ≠ 0 := by
  rw [messagesPerPage]
  omega

theorem frameOf_map (s : PageSettings α) (header : Rect α) {g : Message → Message}
    (hg : ∀ m, (g m).order = m.order) (page : List Message) :
    frameOf s header (page.map g) = frameOf s header page := by
  rw [frameOf, frameOf, List.head?_map, List.getLast?_map]
  cases page.head? <;> cases page.getLast? <;> simp [hg]

def runs (s : PageSettings α) (d : Diagram α) : List (List (Link α)) :=
  if spoken d = [] then [[]] else deal (messagesPerPage s) (spoken d)

theorem flatten_runs (s : PageSettings α) (d : Diagram α) : (runs s d).flatten = spoken d := by
  rw [runs]
  split
  next h => simp [h]
  next => exact flatten_deal (messagesPerPage_ne_zero s) _

theorem runs_ne_nil (s : PageSettings α) (d : Diagram α) : runs s d ≠ [] := by
  rw [runs]
  split
  · simp
  next h => exact mt (deal_eq_nil (messagesPerPage_ne_zero s)).1 h

theorem mem_links_of_mem_runs (hr : run ∈ runs s d) {l : Link α} (hl : l ∈ run) : l ∈ d.links := by
  rw [← (spoken_perm d).mem_iff, ← flatten_runs s d]
  exact List.mem_flatten.2 ⟨run, hr, hl⟩

theorem length_le_of_mem_runs (hr : run ∈ runs s d) : run.length ≤ messagesPerPage s := by
  rw [runs] at hr
  split at hr
  · simp_all
  · exact length_le_of_mem_deal hr

theorem length_of_mem_dropLast_runs (hr : run ∈ (runs s d).dropLast) :
    run.length = messagesPerPage s := by
  rw [runs] at hr
  split at hr
  · simp at hr
  · exact length_of_mem_dropLast_deal hr

theorem ne_nil_of_mem_runs (hc : d.connected ≠ []) (hr : run ∈ runs s d) : run ≠ [] := by
  rw [runs, if_neg (mt spoken_eq_nil.1 hc)] at hr
  exact ne_nil_of_mem_deal hr

def ofRun (s : PageSettings α) (d : Diagram α) (run : List (Link α)) : Selection α :=
  selectMessages s d (run.map .ofLink)

theorem conversation_eq_map_runs (s : PageSettings α) (d : Diagram α) :
    conversation s d = (runs s d).map (ofRun s d) := by
  have hd : deal (messagesPerPage s) (spoken d) = [] ↔ spoken d = [] :=
    deal_eq_nil (messagesPerPage_ne_zero s)
  rw [conversation, messages_eq_map_spoken, deal_map, List.isEmpty_map, runs]
  by_cases h : spoken d = []
  · rw [if_pos h, if_pos (by simp [hd.2 h])]
    rfl
  · rw [if_neg h, if_neg (by simp [hd, h]), List.map_map]
    rfl

theorem edges_ofRun (hr : run ∈ runs s d) : (ofRun s d run).edges = run.map Link.edge := by
  change (run.map Message.ofLink).filterMap (fun m => d.edges[m.position]?) = _
  rw [List.filterMap_map, ← List.filterMap_eq_map]
  exact List.filterMap_congr fun l hl => (Diagram.mem_links.1 (mem_links_of_mem_runs hr hl)).1

theorem getElem?_pages_conversation (s : PageSettings α) (hk : d.kind = .sequence)
    (hn : d.nodes ≠ []) (j : Nat) :
    (d.pages s)[j]? = (runs s d)[j]?.map fun run =>
      ofSelection s d.title (runs s d).length j (ofRun s d run) := by
  have hs : selections s d = (runs s d).map (ofRun s d) := by
    rw [selections_conversation hk, if_neg (by simpa using hn), conversation_eq_map_runs]
  rw [pages_eq, hs, List.getElem?_mapIdx, List.getElem?_map, List.length_map, Option.map_map]
  rfl

theorem map_edges_pages (s : PageSettings α) (hk : d.kind = .sequence) (hn : d.nodes ≠ []) :
    (d.pages s).map edges = (runs s d).map (List.map Link.edge) := by
  refine List.ext_getElem? fun j => ?_
  rw [List.getElem?_map, getElem?_pages_conversation s hk hn, List.getElem?_map, Option.map_map]
  exact Option.map_congr fun run hr => edges_ofRun (List.mem_of_getElem? hr)

theorem pages_ne_nil (s : PageSettings α) (hk : d.kind = .sequence) (hn : d.nodes ≠ []) :
    d.pages s ≠ [] := by
  intro hp
  have h := map_edges_pages s hk hn
  rw [hp] at h
  exact runs_ne_nil s d (List.map_eq_nil_iff.1 h.symm)

theorem exists_run_of_mem_pages (hk : d.kind = .sequence) (hn : d.nodes ≠ []) {p : Page α}
    (hp : p ∈ d.pages s) : ∃ run ∈ runs s d, p.edges = run.map Link.edge ∧ ∃ j,
      p = ofSelection s d.title (runs s d).length j (ofRun s d run) := by
  obtain ⟨j, hj⟩ := List.mem_iff_getElem?.1 hp
  rw [getElem?_pages_conversation s hk hn] at hj
  obtain ⟨run, hr, rfl⟩ := Option.map_eq_some_iff.1 hj
  have hm := List.mem_of_getElem? hr
  exact ⟨run, hm, edges_ofRun hm, j, rfl⟩

theorem flatMap_edges_pages (s : PageSettings α) (hk : d.kind = .sequence) (hn : d.nodes ≠ []) :
    (d.pages s).flatMap edges = (spoken d).map Link.edge := by
  rw [List.flatMap_def, map_edges_pages s hk hn, ← List.map_flatten, flatten_runs]

theorem length_edges_of_mem_dropLast_pages (hk : d.kind = .sequence) (hn : d.nodes ≠ [])
    {p : Page α} (hp : p ∈ (d.pages s).dropLast) : p.edges.length = messagesPerPage s := by
  have hm : p.edges ∈ ((d.pages s).map edges).dropLast := by
    rw [← List.map_dropLast]
    exact List.mem_map_of_mem hp
  rw [map_edges_pages s hk hn, ← List.map_dropLast] at hm
  obtain ⟨run, hr, he⟩ := List.mem_map.1 hm
  rw [← he, List.length_map, length_of_mem_dropLast_runs hr]

theorem edges_ne_nil_of_mem_pages (hk : d.kind = .sequence) (hn : d.nodes ≠ [])
    (hc : d.connected ≠ []) {p : Page α} (hp : p ∈ d.pages s) : p.edges ≠ [] := by
  obtain ⟨run, hr, he, -⟩ := exists_run_of_mem_pages hk hn hp
  rw [he]
  exact mt List.map_eq_nil_iff.1 (ne_nil_of_mem_runs hc hr)

theorem length_pages_of_silent (s : PageSettings α) (hk : d.kind = .sequence) (hn : d.nodes ≠ [])
    (hc : d.connected = []) : (d.pages s).length = 1 := by
  rw [← List.length_map edges, map_edges_pages s hk hn, List.length_map, runs,
    if_pos (spoken_eq_nil.2 hc)]
  rfl

end Page.Conversation

open Page.Conversation

variable {α : Type} [Scalar α]

/-- The pages of a conversation hold the edges that have both ends in the order of their rows, as
many on each page as there is room for and on the last one what remains. Every page shows all nodes,
moved down together, and a conversation without messages has one page. -/
theorem Diagram.sequence_pages_messages (s : PageSettings α) (d : Diagram α)
    (hk : d.kind = .sequence) (hn : d.nodes ≠ []) :
    (∃ spoken : List (Edge × Nat),
        spoken.Perm (d.edges.zipIdx.filter fun p =>
          decide (p.1.source ∈ d.ids ∧ p.1.target ∈ d.ids)) ∧
        (spoken.Pairwise fun p q => toLex (p.1.rowAt p.2, p.2) < toLex (q.1.rowAt q.2, q.2)) ∧
        (d.pages s).flatMap Page.edges = spoken.map Prod.fst) ∧
      1 ≤ messagesPerPage s ∧
      (∀ p ∈ (d.pages s).dropLast, p.edges.length = messagesPerPage s) ∧
      (∀ p ∈ d.pages s, p.edges.length ≤ messagesPerPage s ∧ p.external = [] ∧
        ∃ shift, p.nodes = d.nodes.map fun n => { n with y := n.y + shift }) ∧
      ((∃ e ∈ d.edges, e.source ∈ d.ids ∧ e.target ∈ d.ids) → ∀ p ∈ d.pages s, p.edges ≠ []) ∧
      ((∀ e ∈ d.edges, ¬ (e.source ∈ d.ids ∧ e.target ∈ d.ids)) → (d.pages s).length = 1) := by
  refine ⟨⟨(spoken d).map fun l => (l.edge, l.position), ?_, ?_, ?_⟩, ?_, ?_, ?_, ?_, ?_⟩
  · simp only [← joins_eq_decide]
    rw [← map_edge_position_links]
    exact (spoken_perm d).map _
  · exact List.pairwise_map.2 (pairwise_spoken d)
  · rw [flatMap_edges_pages s hk hn, List.map_map]
    rfl
  · exact Nat.pos_of_ne_zero (messagesPerPage_ne_zero s)
  · exact fun p hp => length_edges_of_mem_dropLast_pages hk hn hp
  · intro p hp
    obtain ⟨run, hr, he, j, rfl⟩ := exists_run_of_mem_pages hk hn hp
    refine ⟨?_, rfl, _, rfl⟩
    rw [he, List.length_map]
    exact length_le_of_mem_runs hr
  · rintro ⟨e, he, hj⟩ p hp
    refine edges_ne_nil_of_mem_pages hk hn (List.ne_nil_of_mem (a := e) ?_) hp
    rw [connected_eq_filter]
    exact List.mem_filter.2 ⟨he, joins_iff.2 hj⟩
  · intro h
    refine length_pages_of_silent s hk hn ?_
    rw [connected_eq_filter, List.filter_eq_nil_iff]
    exact fun e he => mt joins_iff.1 (h e he)

def PageSettings.unmeasured : PageSettings Float32 :=
  { PageSettings.standard with
    maxHeight := Binary32.undefined
    pixelsPerMessage := Binary32.negInfinity }

def Diagram.partlyNumbered : Diagram Float32 where
  kind := .sequence
  nodes :=
    [⟨"node-1", .actor, 40, 40, 100, 50, "for", none⟩,
      ⟨"node-2", .actor, 200, Binary32.undefined, 100, 50, "against", none⟩]
  edges :=
    [⟨"edge-1", "node-1", "node-2", none, some .sync, some 2⟩,
      ⟨"edge-2", "node-2", "node-1", none, some .sync, none⟩,
      ⟨"edge-3", "node-2", "nobody", none, some .async, some 0⟩,
      ⟨"edge-4", "node-2", "node-2", none, some .sync, some 1⟩]
  title := none
  skipped := []
  unresolved := []

theorem Diagram.partlyNumbered_pages_messages :
    partlyNumbered.kind = .sequence ∧ partlyNumbered.nodes ≠ [] ∧ messagesPerPage .unmeasured = 1 ∧
      ∀ p ∈ partlyNumbered.pages .unmeasured, p.edges.length = 1 ∧ p.external = [] := by
  have hone : messagesPerPage .unmeasured = 1 := by decide +kernel
  obtain ⟨-, -, -, hall, hne, -⟩ :=
    sequence_pages_messages .unmeasured partlyNumbered rfl (by decide)
  refine ⟨rfl, by decide, hone, fun p hp => ?_⟩
  obtain ⟨hle, hext, -⟩ := hall p hp
  have hpos := List.length_pos_iff.2 (hne (by decide) p hp)
  exact ⟨by omega, hext⟩

end Drafting
