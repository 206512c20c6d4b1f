import Drafting.Page.Pack
import Drafting.Proofs.Partition

namespace Drafting.Page

variable {α : Type} [Scalar α] {nodes : List (Node α)}

def InRange (nodes : List (Node α)) (group : List Nat) : Prop := ∀ i ∈ group, i < nodes.length

omit [Scalar α] in
theorem getElem?_isSome {group : List Nat} (h : InRange nodes group) {i : Nat} (hi : i ∈ group) :
    ∃ n, nodes[i]? = some n :=
  ⟨_, List.getElem?_eq_getElem (h i hi)⟩

theorem extent_eq_none {members : List (Node α)} : Node.extent members = none ↔ members = [] := by
  cases members <;> simp [Node.extent, Rect.enclosing?]

theorem groupExtent_eq_none {group : List Nat} (h : InRange nodes group) :
    groupExtent nodes group = none ↔ group = [] := by
  rw [groupExtent, extent_eq_none]
  constructor
  · intro he
    refine List.eq_nil_iff_forall_not_mem.2 fun i hi => ?_
    obtain ⟨n, hn⟩ := getElem?_isSome h hi
    have hz := List.filterMap_eq_nil_iff.1 he i hi
    simp [hn] at hz
  · rintro rfl
    rfl

theorem map_fst_readingOrder_perm {group : List Nat} (h : InRange nodes group) :
    ((readingOrder nodes group).map Prod.fst).Perm group := by
  have hf : ((group.filterMap fun i => nodes[i]?.map fun n => (i, n.box)).map Prod.fst) =
      group := by
    rw [List.map_filterMap]
    refine (List.filterMap_congr fun i hi => ?_).trans List.filterMap_some
    obtain ⟨n, hn⟩ := getElem?_isSome h hi
    simp [hn]
  refine ((List.mergeSort_perm _ _).map Prod.fst).trans ?_
  rw [hf]

theorem flatMap_firstFit_perm (s : PageSettings α) (i : Nat) (r : Rect α) (cs : List (Chunk α)) :
    ((firstFit s i r cs).flatMap Chunk.members).Perm (i :: cs.flatMap Chunk.members) := by
  induction cs with
  | nil => simp [firstFit]
  | cons c cs ih =>
      rw [firstFit]
      split
      · simp only [List.flatMap_cons, List.append_assoc]
        exact List.perm_middle
      · rw [List.flatMap_cons, List.flatMap_cons]
        exact (ih.append_left _).trans List.perm_middle

theorem flatMap_foldl_firstFit_perm (s : PageSettings α) (placed : List (Nat × Rect α))
    (cs : List (Chunk α)) :
    ((placed.foldl (fun cs p => firstFit s p.1 p.2 cs) cs).flatMap Chunk.members).Perm
      (placed.map Prod.fst ++ cs.flatMap Chunk.members) := by
  induction placed generalizing cs with
  | nil => simp
  | cons p placed ih =>
      rw [List.foldl_cons, List.map_cons]
      refine (ih _).trans ?_
      exact ((flatMap_firstFit_perm s p.1 p.2 cs).append_left _).trans List.perm_middle

theorem flatten_splitUnit_perm (s : PageSettings α) {unit : List Nat} (h : InRange nodes unit) :
    (splitUnit s nodes unit).flatten.Perm unit := by
  have hp := flatMap_foldl_firstFit_perm s (readingOrder nodes unit) []
  rw [List.flatMap_nil, List.append_nil, List.flatMap_def] at hp
  exact hp.trans (map_fst_readingOrder_perm h)

theorem flatten_chunksOf_perm (s : PageSettings α) {unit : List Nat} (h : InRange nodes unit) :
    (chunksOf s nodes unit).flatten.Perm unit := by
  rw [chunksOf]
  cases he : groupExtent nodes unit with
  | none => simp [(groupExtent_eq_none h).1 he]
  | some r =>
      dsimp only
      split
      · simp
      · exact flatten_splitUnit_perm s h

theorem inRange_of_mem_chunksOf {s : PageSettings α} {unit chunk : List Nat}
    (h : InRange nodes unit) (hc : chunk ∈ chunksOf s nodes unit) : InRange nodes chunk :=
  fun i hi => h i ((flatten_chunksOf_perm s h).mem_iff.1 (List.mem_flatten.2 ⟨chunk, hc, hi⟩))

def chunks (s : PageSettings α) (nodes : List (Node α)) (units : List (List Nat)) :
    List (Chunk α) :=
  (units.flatMap (chunksOf s nodes)).filterMap fun members =>
    (groupExtent nodes members).map fun box => ⟨members, box⟩

theorem pack_eq_fill (s : PageSettings α) (nodes : List (Node α)) (units : List (List Nat)) :
    pack s nodes units = match chunks s nodes units with
      | [] => []
      | c :: cs => fill s c cs := rfl

theorem exists_of_mem_chunks {s : PageSettings α} {units : List (List Nat)} {c : Chunk α}
    (h : c ∈ chunks s nodes units) : ∃ unit ∈ units, c.members ∈ chunksOf s nodes unit ∧
      groupExtent nodes c.members = some c.box := by
  obtain ⟨members, hg, hm⟩ := List.mem_filterMap.1 h
  obtain ⟨box, hb, rfl⟩ := Option.map_eq_some_iff.1 hm
  obtain ⟨unit, hu, hc⟩ := List.mem_flatMap.1 hg
  exact ⟨unit, hu, hc, hb⟩

theorem members_ne_nil {c : Chunk α} (h : groupExtent nodes c.members = some c.box) :
    c.members ≠ [] := by
  intro he
  simp [he, groupExtent, Node.extent, Rect.enclosing?] at h

/-- No chunk is dropped but the empty ones. -/
theorem flatMap_members_chunks (s : PageSettings α) {units : List (List Nat)}
    (h : ∀ unit ∈ units, InRange nodes unit) :
    (chunks s nodes units).flatMap Chunk.members = (units.flatMap (chunksOf s nodes)).flatten := by
  have hr : ∀ chunk ∈ units.flatMap (chunksOf s nodes), InRange nodes chunk := by
    intro chunk hc
    obtain ⟨unit, hu, hc⟩ := List.mem_flatMap.1 hc
    exact inRange_of_mem_chunksOf (h unit hu) hc
  rw [chunks]
  generalize units.flatMap (chunksOf s nodes) = groups at hr
  induction groups with
  | nil => rfl
  | cons group groups ih =>
      have ih := ih fun chunk hc => hr chunk (List.mem_cons_of_mem _ hc)
      cases he : groupExtent nodes group with
      | none =>
          have hn := (groupExtent_eq_none (hr group List.mem_cons_self)).1 he
          rw [List.filterMap_cons, he, List.flatten_cons, hn]
          exact ih
      | some box => simp [he, ih]

theorem flatten_fill (s : PageSettings α) (page : Chunk α) (cs : List (Chunk α)) :
    (fill s page cs).flatten = page.members ++ cs.flatMap Chunk.members := by
  induction cs generalizing page with
  | nil => simp [fill]
  | cons c cs ih =>
      rw [fill]
      split <;> simp [ih]

/-- The pages take up the chunks one after the other. -/
theorem flatten_pack (s : PageSettings α) {units : List (List Nat)}
    (h : ∀ unit ∈ units, InRange nodes unit) :
    (pack s nodes units).flatten = (units.flatMap (chunksOf s nodes)).flatten := by
  rw [← flatMap_members_chunks s h, pack_eq_fill]
  cases chunks s nodes units with
  | nil => rfl
  | cons c cs => exact flatten_fill s c cs

theorem fill_ne_nil {s : PageSettings α} {page : Chunk α} {cs : List (Chunk α)}
    (hp : page.members ≠ []) (hc : ∀ c ∈ cs, c.members ≠ []) :
    ∀ group ∈ fill s page cs, group ≠ [] := by
  induction cs generalizing page with
  | nil => simpa [fill] using hp
  | cons c cs ih =>
      have hrest := fun c' hc' => hc c' (List.mem_cons_of_mem _ hc')
      rw [fill]
      split
      · exact ih (by simp [hp]) hrest
      · intro group hg
        rcases List.mem_cons.1 hg with rfl | hg
        · exact hp
        · exact ih (hc c List.mem_cons_self) hrest group hg

theorem pack_ne_nil {s : PageSettings α} {units : List (List Nat)} :
    ∀ group ∈ pack s nodes units, group ≠ [] := by
  have hc : ∀ c ∈ chunks s nodes units, c.members ≠ [] := by
    intro c h
    obtain ⟨unit, _, _, hb⟩ := exists_of_mem_chunks h
    exact members_ne_nil hb
  rw [pack_eq_fill]
  generalize chunks s nodes units = cs at hc
  cases cs with
  | nil => simp
  | cons c cs =>
      exact fill_ne_nil (hc c List.mem_cons_self) fun c' h => hc c' (List.mem_cons_of_mem _ h)

theorem pack_partitions (s : PageSettings α) {units : List (List Nat)}
    (h : Partitions units nodes.length) : Partitions (pack s nodes units) nodes.length := by
  have hr : ∀ unit ∈ units, InRange nodes unit := fun unit hu i hi => h.lt hu hi
  have hp : (units.map fun unit => (chunksOf s nodes unit).flatten).flatten.Perm units.flatten := by
    rw [← List.flatMap_def, ← List.flatMap_id]
    exact List.Perm.flatMap_left units fun unit hu => flatten_chunksOf_perm s (hr unit hu)
  rw [Partitions, flatten_pack s hr]
  refine List.Perm.trans ?_ h
  simpa [List.flatMap_def, List.flatten_flatten, List.map_map, Function.comp_def] using hp

end Drafting.Page
