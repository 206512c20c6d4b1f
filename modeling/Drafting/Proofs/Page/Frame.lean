import Mathlib.Data.Rat.Floor
import Drafting.Proofs.Layout.Conversation
import Drafting.Proofs.Page.RowSpan
import Drafting.Proofs.Route.Message

namespace Drafting

namespace Page.Conversation

open Scalar

variable {K : Type} [Field K] [LinearOrder K] [FloorSemiring K] {d : Diagram K}
  {run : List (Link K)} {t : PageSettings K}

theorem spoken_eq_links (h : d.IsConversation) : spoken d = d.links := by
  refine List.mergeSort_of_pairwise ?_
  have hlt : d.links.Pairwise fun l m => l.position < m.position := by
    rw [← List.pairwise_map, h.map_position_links]
    exact List.pairwise_lt_range
  refine hlt.imp_of_mem fun hl hm hlt => ?_
  rw [before_ofLink, Link.key, Link.key, h.rowAt_eq hl, h.rowAt_eq hm]
  exact Prod.Lex.toLex_le_toLex.2 (.inl hlt)

theorem exists_range'_of_infix {rows : List Nat} {n : Nat} (h : rows <:+: List.range n) :
    ∃ first, rows = List.range' first rows.length ∧ first + rows.length ≤ n := by
  obtain ⟨before, after, hsplit⟩ := h
  rw [List.range_eq_range', eq_comm, List.range'_eq_append_iff] at hsplit
  obtain ⟨k, hk, hleft, -⟩ := hsplit
  obtain ⟨j, hj, -, hrows⟩ := List.range'_eq_append_iff.1 hleft.symm
  rw [hrows, List.length_range']
  exact ⟨_, rfl, by omega⟩

theorem exists_first_row (h : d.IsConversation) (hr : run ∈ runs t d) :
    ∃ first, run.map Link.position = List.range' first run.length ∧
      first + run.length ≤ d.edges.length := by
  have hinfix := (List.infix_of_mem_flatten hr).map Link.position
  rw [flatten_runs, spoken_eq_links h, h.map_position_links] at hinfix
  obtain ⟨first, hrow, hle⟩ := exists_range'_of_infix hinfix
  rw [List.length_map] at hrow hle
  exact ⟨first, hrow, hle⟩

theorem rowSpan_eq (first : Nat) {n : Nat} (hn : n ≠ 0) (h : first + n < 2 ^ 64) :
    rowSpan first (first + n - 1) = n := by
  have hover : ¬ Overruns (first + n - 1) := by
    rw [overruns_iff (by omega)]
    omega
  rw [rowSpan_of_not_overruns (by omega) (by omega) hover]
  omega

def frameAt (t : PageSettings K) (header : Rect K) (first rows : Nat) : Rect K :=
  ⟨header.x, header.y + first * t.pixelsPerMessage, header.width,
    max (200 + rows * t.pixelsPerMessage) header.height⟩

theorem frameOf_eq (t : PageSettings K) (header : Rect K) {page : List Message} {first : Nat}
    (hn : page ≠ []) (hp : page.map Message.order = List.range' first page.length)
    (hlt : first + page.length < 2 ^ 64) :
    frameOf t header page =
      (first * t.pixelsPerMessage, frameAt t header first page.length) := by
  have hlength : page.length ≠ 0 := mt List.length_eq_zero_iff.1 hn
  have hhead := congrArg List.head? hp
  have hlast := congrArg List.getLast? hp
  rw [List.head?_map, List.head?_range', if_neg hlength] at hhead
  rw [List.getLast?_map, List.getLast?_range', if_neg hlength] at hlast
  obtain ⟨m, hm, rfl⟩ := Option.map_eq_some_iff.1 hhead
  obtain ⟨l, hl, ho⟩ := Option.map_eq_some_iff.1 hlast
  rw [frameOf, hm, hl]
  dsimp only
  rw [ho, frame, rowSpan_eq _ hlength hlt, greatest_eq_max]
  rfl

theorem frameOf_nil (t : PageSettings K) (header : Rect K) :
    frameOf t header [] = ((0 : Nat) * t.pixelsPerMessage, frameAt t header 0 1) := by
  have hspan : rowSpan 0 0 = 1 := by decide
  have hshift : ((0 : Nat) : K) * t.pixelsPerMessage = 0 := by simp
  rw [frameAt, ← greatest_eq_max, frameOf]
  dsimp only [List.head?_nil]
  rw [frame, hspan]
  exact congrArg (·, _) (zero_eq.trans hshift.symm)

structure Spans (run : List (Link K)) (first rows : Nat) : Prop where
  inRows : ∀ l ∈ run, first ≤ l.position ∧ l.position < first + rows
  head : ∀ l ∈ run.head?, l.position = first

theorem exists_frame (h : d.IsConversation) (hlt : d.edges.length < 2 ^ 64) (header : Rect K)
    (hr : run ∈ runs t d) :
    ∃ first rows : Nat, Spans run first rows ∧ rows ≤ messagesPerPage t ∧
      frameOf t header (run.map .ofLink) =
        (first * t.pixelsPerMessage, frameAt t header first rows) := by
  have hle := length_le_of_mem_runs hr
  by_cases hn : run = []
  · subst hn
    have hone := Nat.pos_of_ne_zero (messagesPerPage_ne_zero t)
    exact ⟨0, 1, ⟨by simp, by simp⟩, hone, frameOf_nil t header⟩
  obtain ⟨first, hrow, hfirst⟩ := exists_first_row h hr
  have horder : (run.map Message.ofLink).map Message.order =
      List.range' first (run.map Message.ofLink).length := by
    rw [List.map_map, List.length_map, ← hrow]
    exact List.map_congr_left fun l hl => h.rowAt_eq (mem_links_of_mem_runs hr hl)
  refine ⟨first, run.length, ⟨fun l hl => ?_, fun l hl => ?_⟩, hle, ?_⟩
  · have hm : l.position ∈ run.map Link.position := List.mem_map_of_mem hl
    rwa [hrow, List.mem_range'_1] at hm
  · have hm := congrArg List.head? hrow
    rw [List.head?_map, hl, List.head?_range', if_neg (mt List.length_eq_zero_iff.1 hn)] at hm
    exact Option.some_inj.1 hm
  · have hbound : first + (run.map Message.ofLink).length < 2 ^ 64 := by
      rw [List.length_map]
      omega
    rw [frameOf_eq t header (mt List.map_eq_nil_iff.1 hn) horder hbound, List.length_map]

section

variable [IsStrictOrderedRing K] {s : LayoutSettings K} {header : Rect K} {first rows : Nat}

theorem messagesPerPage_mul_le (hroom : 200 + max t.pixelsPerMessage 1 ≤ t.maxHeight) :
    messagesPerPage t * t.pixelsPerMessage ≤ t.maxHeight - 200 := by
  let step := max t.pixelsPerMessage 1
  have hstep : 0 < step := lt_max_of_lt_right one_pos
  have hone : 1 ≤ (t.maxHeight - 200) / step := (one_le_div hstep).2 (by linarith)
  have hper : messagesPerPage t = ⌊(t.maxHeight - 200) / step⌋₊ := by
    rw [messagesPerPage, greatest_eq_max, one_eq]
    exact max_eq_left (Nat.le_floor (Nat.cast_one.trans_le hone))
  calc messagesPerPage t * t.pixelsPerMessage
      ≤ messagesPerPage t * step :=
        mul_le_mul_of_nonneg_left (le_max_left _ _) (Nat.cast_nonneg _)
    _ ≤ (t.maxHeight - 200) / step * step := by
        rw [hper]
        exact mul_le_mul_of_nonneg_right (Nat.floor_le (by linarith)) hstep.le
    _ = t.maxHeight - 200 := div_mul_cancel₀ _ hstep.ne'

theorem height_frameAt_le (header : Rect K) (first : Nat) (hp : 0 ≤ t.pixelsPerMessage)
    (hroom : 200 + max t.pixelsPerMessage 1 ≤ t.maxHeight) (hrows : rows ≤ messagesPerPage t)
    (hh : header.height ≤ 200) : (frameAt t header first rows).height ≤ t.maxHeight := by
  have hmax := messagesPerPage_mul_le hroom
  have hstep : (1 : K) ≤ max t.pixelsPerMessage 1 := le_max_right _ _
  have hle : (rows : K) * t.pixelsPerMessage ≤ messagesPerPage t * t.pixelsPerMessage :=
    mul_le_mul_of_nonneg_right (Nat.cast_le.2 hrows) hp
  exact max_le (by linarith) (by linarith)

theorem bottom_le_frameAt (t : PageSettings K) (header : Rect K) (first rows : Nat) :
    header.bottom + first * t.pixelsPerMessage ≤ (frameAt t header first rows).bottom := by
  have hheight : header.height ≤ (frameAt t header first rows).height := le_max_right _ _
  change header.y + header.height + _ ≤ header.y + first * t.pixelsPerMessage + _
  linarith

theorem rows_le_frameAt (t : PageSettings K) (header : Rect K) (first rows : Nat) :
    header.y + (first + rows) * t.pixelsPerMessage + 200 ≤
      (frameAt t header first rows).bottom := by
  have hheight : 200 + rows * t.pixelsPerMessage ≤ (frameAt t header first rows).height :=
    le_max_left _ _
  change _ ≤ header.y + first * t.pixelsPerMessage + _
  linarith

theorem frameAt_holds {b : Rect K} (h : header.Holds b) :
    (frameAt t header first rows).Holds (b.shift 0 (first * t.pixelsPerMessage)) := by
  obtain ⟨⟨hl, hr⟩, ht, hb⟩ := h
  rw [Rect.Holds, Rect.x_shift, Rect.right_shift, Rect.y_shift, Rect.bottom_shift, add_zero,
    add_zero]
  exact ⟨⟨hl, hr⟩, add_le_add_left ht _,
    (add_le_add_left hb _).trans (bottom_le_frameAt t header first rows)⟩

theorem frameAt_contains_message (h : d.IsConversation) (he : d.extent = some header)
    (hy : header.y = s.padding) (hh : 0 ≤ s.sequence.headerHeight ∧ s.sequence.headerHeight ≤ 200)
    (hp : 0 ≤ t.pixelsPerMessage) (hs : t.pixelsPerMessage = s.sequence.pixelsPerMessage)
    {l : Link K} (hl : l ∈ d.links) (hf : first ≤ l.position) (hr : l.position < first + rows) :
    ∀ p ∈ Route.message s l, (frameAt t header first rows).Contains p := by
  intro p hm
  have hfirst : (first : K) * t.pixelsPerMessage ≤ l.position * t.pixelsPerMessage :=
    mul_le_mul_of_nonneg_right (Nat.cast_le.2 hf) hp
  have hlast : ((l.position + 1 : Nat) : K) * t.pixelsPerMessage ≤
      ((first + rows : Nat) : K) * t.pixelsPerMessage :=
    mul_le_mul_of_nonneg_right (Nat.cast_le.2 hr) hp
  rw [Nat.cast_add, Nat.cast_one, Nat.cast_add] at hlast
  have htop := (Route.isLeast_message (hs ▸ hp) l).2 ⟨p, hm, rfl⟩
  have hlow := (Route.isGreatest_message (hs ▸ hp) l).2 ⟨p, hm, rfl⟩
  have hdepth := Route.loopDepth_le (hs ▸ hp) l.edge
  rw [h.rowAt_eq hl, Layout.Conversation.messageY, ← hs, ← hy] at htop hlow
  rw [← hs] at hdepth
  have hbottom := rows_le_frameAt t header first rows
  refine ⟨h.x_message he hl p hm, ?_, ?_⟩
  · change header.y + first * t.pixelsPerMessage ≤ p.y
    linarith
  · linarith

omit [IsStrictOrderedRing K] in
theorem exists_frame_of_mem_pages (h : d.IsConversation) (hlt : d.edges.length < 2 ^ 64)
    (he : d.extent = some header) {p : Page K} (hp : p ∈ d.pages t) :
    ∃ run ∈ runs t d, ∃ first rows : Nat, Spans run first rows ∧ rows ≤ messagesPerPage t ∧
      p.edges = run.map Link.edge ∧
      p.nodes = d.nodes.map (Node.shift 0 (first * t.pixelsPerMessage)) ∧
      p.viewBox = (frameAt t header first rows).inflate t.padding := by
  obtain ⟨run, hr, hedges, j, rfl⟩ := exists_run_of_mem_pages h.kind h.inhabited hp
  obtain ⟨first, rows, hspan, hle, hf⟩ := exists_frame h hlt header hr
  have hheader : (Node.extent d.nodes).getD .zero = header := by
    rw [← Diagram.extent, he, Option.getD_some]
  have hrun : ofRun t d run = ⟨frameAt t header first rows, first * t.pixelsPerMessage, d.nodes,
      run.map Link.edge, []⟩ := by
    rw [← edges_ofRun hr, ofRun, selectMessages, hheader, hf]
  refine ⟨run, hr, first, rows, hspan, hle, hedges, ?_, ?_⟩
  · rw [hrun]
    exact List.map_congr_left fun n _ => Node.shift_zero_left _ n
  · rw [hrun]
    rfl

end

end Page.Conversation

open Page.Conversation

variable {K : Type} [Field K] [LinearOrder K] [FloorSemiring K] [IsStrictOrderedRing K]

/-- A page that shows all of its messages, where they are routed, with the actors above them. -/
structure Page.Frames (s : LayoutSettings K) (routes : List (Route K)) (p : Page K) : Prop where
  routed : ∀ e ∈ p.edges, ∃ r ∈ routes, r.edge = e.id
  messages : ∀ e ∈ p.edges, ∀ r ∈ routes, r.edge = e.id → ∀ q ∈ r.points, p.viewBox.Contains q
  actors : ∀ n ∈ p.nodes, p.viewBox.Holds n.box
  above : ∀ e ∈ p.edges.head?, ∃ row, e.order = some row ∧
    ∀ n ∈ p.nodes, n.box.bottom ≤ Layout.Conversation.messageY s row

namespace Diagram.IsConversation

variable {d : Diagram K} {s : LayoutSettings K} {t : PageSettings K} {width : K}

theorem frames (h : d.IsConversation) (hlt : d.edges.length < 2 ^ 64)
    (he : d.extent = some ⟨s.padding, s.padding, width, 50⟩)
    (hh : 50 ≤ s.sequence.headerHeight ∧ s.sequence.headerHeight ≤ 200) (hm : 0 ≤ t.padding)
    (hp : 0 ≤ t.pixelsPerMessage) (hs : t.pixelsPerMessage = s.sequence.pixelsPerMessage)
    (root : K → K) (style : PathStyle) {p : Page K} (hpage : p ∈ d.pages t) :
    p.Frames s (d.exactRoutes root s style) := by
  obtain ⟨run, hr, first, rows, hspan, -, hedges, hnodes, hview⟩ :=
    exists_frame_of_mem_pages h hlt he hpage
  have hmem : ∀ l ∈ run, l ∈ d.links := fun l hl => mem_links_of_mem_runs hr hl
  constructor
  case routed =>
    simp only [hedges, List.forall_mem_map]
    intro l hl
    exact ⟨_, (h.mem_exactRoutes_iff root s style (hmem l hl)).2 rfl⟩
  case messages =>
    simp only [hedges, List.forall_mem_map]
    intro l hl r hroute hid q hq
    rw [(h.mem_exactRoutes_iff root s style (hmem l hl)).1 ⟨hroute, hid⟩] at hq
    obtain ⟨hf, hlast⟩ := hspan.inRows l hl
    have hframe := frameAt_contains_message h he rfl ⟨by linarith, hh.2⟩ hp hs (hmem l hl) hf hlast
    rw [hview]
    exact (hframe q hq).inflate hm
  case actors =>
    simp only [hnodes, hview, List.forall_mem_map, Node.box_shift]
    exact fun n hn => (frameAt_holds (holds_box he hn)).inflate hm
  case above =>
    simp only [hedges, hnodes, List.head?_map, Option.forall_mem_map, List.forall_mem_map,
      Node.box_shift, Rect.bottom_shift]
    intro l hl
    refine ⟨_, h.order_eq (hmem l (List.mem_of_mem_head? hl)), fun n hn => ?_⟩
    obtain ⟨-, -, hb⟩ := holds_box he hn
    rw [hspan.head l hl, Layout.Conversation.messageY, ← hs]
    change _ ≤ s.padding + 50 at hb
    linarith

end Diagram.IsConversation

namespace Source

/-- Every page of a conversation frames its own messages, and where a page has room for one of them
none is higher than it may be. The length of a text fits into a word, as rows do. -/
theorem sequence_pages_frames (text : List Char) (ids rest : IdSupply) (d : Diagram K)
    (hd : parseWith .sequence text ids = .ok (d, rest)) (hlength : text.length < 2 ^ 64)
    (root : K → K) (style : PathStyle) (s : LayoutSettings K) (t : PageSettings K)
    (hheader : 50 ≤ s.sequence.headerHeight ∧ s.sequence.headerHeight ≤ 200)
    (hpadding : 0 ≤ t.padding) (hstep : 0 ≤ t.pixelsPerMessage)
    (hsame : t.pixelsPerMessage = s.sequence.pixelsPerMessage) :
    (d.layout s).pages t ≠ [] ∧ ∀ p ∈ (d.layout s).pages t,
      p.Frames s ((d.layout s).exactRoutes root s style) ∧
        (200 + max t.pixelsPerMessage 1 ≤ t.maxHeight →
          p.viewBox.height ≤ t.maxHeight + 2 * t.padding) := by
  have h := isConversation_of_parseWith hd
  have hlt : (d.layout s).edges.length < 2 ^ 64 :=
    (length_edges_le_of_parseWith hd).trans_lt hlength
  obtain ⟨width, he⟩ := h.exists_extent_layout s
  have hl := h.layout s
  refine ⟨pages_ne_nil t hl.kind hl.inhabited, fun p hp =>
    ⟨hl.frames hlt he hheader hpadding hstep hsame root style hp, fun hroom => ?_⟩⟩
  obtain ⟨run, -, first, rows, -, hle, -, -, hview⟩ := exists_frame_of_mem_pages hl hlt he hp
  have hheight := height_frameAt_le ⟨s.padding, s.padding, width, 50⟩ first hstep hroom hle
    (by norm_num)
  rw [hview]
  change _ + t.padding * 2 ≤ _
  linarith

def threeMessages : List Char :=
  "participant Ann\nAnn -> Bob: no\nBob -> Bob\nBob --> Ann: yes".toList

end Source

def PageSettings.short : PageSettings ℚ := { PageSettings.standard with maxHeight := 250 }

theorem Source.threeMessages_pages_frames :
    ∃ d rest, parseWith .sequence threeMessages .fresh = .ok (d, rest) ∧ d.edges.length = 3 ∧
      (d.layout .standard).pages .short ≠ [] ∧ ∀ p ∈ (d.layout .standard).pages .short,
        p.Frames .standard ((d.layout .standard).exactRoutes id .standard .direct) ∧
          p.viewBox.height ≤ 330 := by
  refine ⟨_, _, rfl, rfl, ?_⟩
  obtain ⟨hne, hp⟩ := sequence_pages_frames threeMessages .fresh _ _ rfl (by decide) id .direct
    .standard .short (by decide) (by decide) (by decide) rfl
  have hroom : 200 + max PageSettings.short.pixelsPerMessage 1 ≤ PageSettings.short.maxHeight := by
    decide +kernel
  refine ⟨hne, fun p hm => ⟨(hp p hm).1, ((hp p hm).2 hroom).trans ?_⟩⟩
  decide +kernel

end Drafting
