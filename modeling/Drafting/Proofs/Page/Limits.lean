import Mathlib.Data.Rat.Floor
import Drafting.Proofs.Geometry
import Drafting.Proofs.Page.Nodes

namespace Drafting

variable {K : Type} [Field K] [LinearOrder K] [FloorSemiring K]
variable {s : PageSettings K} {nodes : List (Node K)} {d : Diagram K}

namespace Page

structure Chunk.Sound (s : PageSettings K) (nodes : List (Node K)) (c : Chunk K) : Prop where
  framed : groupExtent nodes c.members = some c.box
  modest : c.members.length = 1 ∨ fits s c.box

theorem groupExtent_singleton {i : Nat} {n : Node K} (h : nodes[i]? = some n) :
    groupExtent nodes [i] = some n.box := by
  rw [groupExtent, List.filterMap_cons, h]
  rfl

theorem groupExtent_append {group more : List Nat} {r t : Rect K}
    (hr : groupExtent nodes group = some r) (ht : groupExtent nodes more = some t) :
    groupExtent nodes (group ++ more) = some (r.join t) := by
  rw [groupExtent, Node.extent, List.filterMap_append, List.map_append]
  exact Rect.enclosing?_append hr ht

theorem groupExtent_perm {group other : List Nat} (h : group.Perm other) :
    groupExtent nodes group = groupExtent nodes other :=
  Rect.enclosing?_perm ((h.filterMap _).map _)

theorem Chunk.Sound.single (s : PageSettings K) {i : Nat} {n : Node K} (h : nodes[i]? = some n) :
    Chunk.Sound s nodes ⟨[i], n.box⟩ :=
  ⟨groupExtent_singleton h, .inl rfl⟩

theorem Chunk.Sound.joined {c : Chunk K} {group : List Nat} {r : Rect K}
    (hc : Chunk.Sound s nodes c) (hr : groupExtent nodes group = some r)
    (hf : fits s (c.box.join r)) :
    Chunk.Sound s nodes ⟨c.members ++ group, c.box.join r⟩ :=
  ⟨groupExtent_append hc.framed hr, .inr hf⟩

theorem sound_firstFit {i : Nat} {n : Node K} (hn : nodes[i]? = some n) {cs : List (Chunk K)}
    (h : ∀ c ∈ cs, Chunk.Sound s nodes c) :
    ∀ c ∈ firstFit s i n.box cs, Chunk.Sound s nodes c := by
  induction cs with
  | nil =>
      intro c hc
      rw [List.mem_singleton.1 hc]
      exact .single s hn
  | cons a cs ih =>
      have ha := h a List.mem_cons_self
      have hcs : ∀ c ∈ cs, Chunk.Sound s nodes c := fun c hc => h c (List.mem_cons_of_mem _ hc)
      intro c hc
      rw [firstFit] at hc
      split at hc
      · rename_i hf
        rcases List.mem_cons.1 hc with rfl | hc
        · exact ha.joined (groupExtent_singleton hn) hf
        · exact hcs c hc
      · rcases List.mem_cons.1 hc with rfl | hc
        · exact ha
        · exact ih hcs c hc

theorem sound_foldl_firstFit {placed : List (Nat × Rect K)}
    (hp : ∀ p ∈ placed, ∃ n, nodes[p.1]? = some n ∧ p.2 = n.box) {cs : List (Chunk K)}
    (h : ∀ c ∈ cs, Chunk.Sound s nodes c) :
    ∀ c ∈ placed.foldl (fun cs p => firstFit s p.1 p.2 cs) cs, Chunk.Sound s nodes c := by
  induction placed generalizing cs with
  | nil => exact h
  | cons p placed ih =>
      obtain ⟨n, hn, hb⟩ := hp p List.mem_cons_self
      rw [List.foldl_cons, hb]
      exact ih (fun q hq => hp q (List.mem_cons_of_mem _ hq)) (sound_firstFit hn h)

theorem box_of_mem_readingOrder {group : List Nat} {p : Nat × Rect K}
    (h : p ∈ readingOrder nodes group) : ∃ n, nodes[p.1]? = some n ∧ p.2 = n.box := by
  obtain ⟨i, _, hp⟩ := List.mem_filterMap.1 ((List.mergeSort_perm _ _).mem_iff.1 h)
  obtain ⟨n, hn, rfl⟩ := Option.map_eq_some_iff.1 hp
  exact ⟨n, hn, rfl⟩

theorem sound_of_mem_chunksOf {unit group : List Nat} (h : group ∈ chunksOf s nodes unit) :
    ∃ r, Chunk.Sound s nodes ⟨group, r⟩ := by
  rw [chunksOf] at h
  cases he : groupExtent nodes unit with
  | none => simp [he] at h
  | some r =>
      rw [he] at h
      dsimp only at h
      split at h
      · rename_i hf
        rw [List.mem_singleton.1 h]
        exact ⟨r, he, .inr hf⟩
      · obtain ⟨c, hc, rfl⟩ := List.mem_map.1 h
        exact ⟨c.box, sound_foldl_firstFit (fun p => box_of_mem_readingOrder) (by simp) c hc⟩

theorem sound_of_mem_chunks {units : List (List Nat)} {c : Chunk K}
    (h : c ∈ chunks s nodes units) : Chunk.Sound s nodes c := by
  obtain ⟨unit, _, hc, hb⟩ := exists_of_mem_chunks h
  obtain ⟨r, hr⟩ := sound_of_mem_chunksOf hc
  cases hr.framed.symm.trans hb
  exact hr

theorem sound_of_mem_fill {page : Chunk K} {cs : List (Chunk K)} {group : List Nat}
    (hp : Chunk.Sound s nodes page) (hc : ∀ c ∈ cs, Chunk.Sound s nodes c)
    (h : group ∈ fill s page cs) : ∃ r, Chunk.Sound s nodes ⟨group, r⟩ := by
  induction cs generalizing page with
  | nil =>
      rw [List.mem_singleton.1 h]
      exact ⟨page.box, hp⟩
  | cons c cs ih =>
      have hcs : ∀ c ∈ cs, Chunk.Sound s nodes c := fun c' h => hc c' (List.mem_cons_of_mem _ h)
      have hs := hc c List.mem_cons_self
      rw [fill] at h
      split at h
      · rename_i hf
        exact ih (hp.joined hs.framed hf) hcs h
      · rcases List.mem_cons.1 h with rfl | h
        · exact ⟨page.box, hp⟩
        · exact ih hs hcs h

theorem sound_of_mem_pack {units : List (List Nat)} {group : List Nat}
    (h : group ∈ pack s nodes units) : ∃ r, Chunk.Sound s nodes ⟨group, r⟩ := by
  have hs : ∀ c ∈ chunks s nodes units, Chunk.Sound s nodes c := fun _ => sound_of_mem_chunks
  rw [pack_eq_fill] at h
  generalize chunks s nodes units = cs at h hs
  cases cs with
  | nil => cases h
  | cons c cs =>
      exact sound_of_mem_fill (hs c List.mem_cons_self)
        (fun c' h => hs c' (List.mem_cons_of_mem _ h)) h

theorem groupExtent_range (nodes : List (Node K)) :
    groupExtent nodes (List.range nodes.length) = Node.extent nodes := by
  have h := congrArg (List.filterMap id) (map_getElem?_range nodes)
  rw [List.filterMap_map, List.filterMap_map, Function.id_comp, Function.id_comp,
    List.filterMap_some] at h
  rw [groupExtent, h]

/-- Only the cells of a grid are pages without regard to their size. -/
theorem sound_of_mem_groupsOf (hs : d.kind = .flow ∨ d.kind = .generic → s.strategy ≠ .grid)
    (hk : d.kind ≠ .sequence) {group : List Nat} (h : group ∈ groupsOf s d) :
    ∃ r, Chunk.Sound s d.nodes ⟨group, r⟩ := by
  rw [groupsOf] at h
  cases he : Node.extent d.nodes with
  | none => simp [he] at h
  | some r =>
      rw [he] at h
      dsimp only at h
      split at h
      · rename_i hf
        rw [List.mem_singleton.1 h]
        exact ⟨r, (groupExtent_range d.nodes).trans he, .inr hf⟩
      · rw [groups] at h
        split at h
        · exact sound_of_mem_pack h
        · exact sound_of_mem_pack h
        · exact sound_of_mem_pack h
        · rename_i h₁ h₂ h₃
          split at h
          · exact sound_of_mem_pack h
          · exact sound_of_mem_pack h
          · rename_i hg
            refine absurd hg (hs ?_)
            cases hd : d.kind <;> simp_all

/-- A page shows its group in the order of the diagram, which does not change its rectangle. -/
theorem extent_select (connected : List Edge) {group : List Nat} (hn : group.Nodup)
    (hr : InRange d.nodes group) :
    Node.extent (select d connected group).nodes = groupExtent d.nodes group := by
  have h := congrArg (List.filterMap id) (nodes_select (d := d) connected group)
  rw [List.filterMap_map, List.filterMap_map, Function.id_comp, Function.id_comp,
    List.filterMap_some] at h
  rw [h]
  exact groupExtent_perm (inOrder_perm hn hr)

theorem nodes_ofSelection_select (title : Option String) (total j : Nat) (connected : List Edge)
    (group : List Nat) :
    (ofSelection s title total j (select d connected group)).nodes =
      (select d connected group).nodes :=
  map_lower_zero fun _ _ => by rw [Scalar.zero_eq, add_zero]

theorem length_select (connected : List Edge) {group : List Nat} (hn : group.Nodup)
    (hr : InRange d.nodes group) : (select d connected group).nodes.length = group.length := by
  have h := congrArg List.length (nodes_select (d := d) connected group)
  rw [List.length_map, List.length_map] at h
  rw [h, (inOrder_perm hn hr).length_eq]

end Page

open Page

/-- A page of a diagram that is neither a conversation nor broken along a grid shows a single node
or keeps to the limits, and its view is the rectangle around its nodes with the padding added. -/
theorem Diagram.pages_viewBox_within (s : PageSettings K) (d : Diagram K)
    (hk : d.kind ≠ .sequence) (hs : d.kind = .flow ∨ d.kind = .generic → s.strategy ≠ .grid) :
    ∀ p ∈ d.pages s, ∃ r : Rect K, r.IsHull (p.nodes.map Node.box) ∧
      p.viewBox = r.inflate s.padding ∧
      (p.nodes.length = 1 ∨
        r.width ≤ s.maxWidth + s.overlapMargin ∧ r.height ≤ s.maxHeight + s.overlapMargin) := by
  intro p hp
  obtain ⟨j, hj⟩ := List.mem_iff_getElem?.1 hp
  rw [getElem?_pages hk] at hj
  obtain ⟨group, hg, rfl⟩ := Option.map_eq_some_iff.1 hj
  have hm : group ∈ groupsOf s d := List.mem_of_getElem? hg
  have hn : group.Nodup := (groupsOf_partitions s d).nodup hm
  have hr := inRange_of_mem_groupsOf hm
  obtain ⟨r, hframed, hmodest⟩ := sound_of_mem_groupsOf hs hk hm
  have he := (extent_select (d := d) d.connected hn hr).trans hframed
  rw [nodes_ofSelection_select]
  refine ⟨r, Rect.isHull_of_enclosing? he, ?_, ?_⟩
  · change ((Node.extent (select d d.connected group).nodes).getD .zero).inflate s.padding = _
    rw [he, Option.getD_some]
  · refine hmodest.imp (fun h => (length_select d.connected hn hr).trans h) fun h => ?_
    simpa [fits] using h

def Diagram.wideNode : Diagram ℚ where
  kind := .flow
  nodes :=
    [⟨"node-1", .process, 0, 0, 140, 60, "before", none⟩,
      ⟨"node-2", .process, 0, 140, 5000, 60, "wide", none⟩,
      ⟨"node-3", .process, 0, 280, 140, 60, "after", none⟩]
  edges := [⟨"edge-1", "node-1", "node-2", none, some .flow, none⟩]
  title := none
  skipped := []
  unresolved := []

theorem Diagram.wideNode_viewBox_within :
    Diagram.wideNode.kind ≠ .sequence ∧
      (Diagram.wideNode.kind = .flow ∨ Diagram.wideNode.kind = .generic →
        (PageSettings.standard : PageSettings ℚ).strategy ≠ .grid) ∧
      ∀ p ∈ Diagram.wideNode.pages .standard, ∃ r : Rect ℚ, r.IsHull (p.nodes.map Node.box) ∧
        p.viewBox = r.inflate 40 ∧ (p.nodes.length = 1 ∨ r.width ≤ 1200 + 0 ∧ r.height ≤ 900 + 0) :=
  ⟨by decide, fun _ => by decide,
    Diagram.pages_viewBox_within .standard Diagram.wideNode (by decide) fun _ => by decide⟩

end Drafting
