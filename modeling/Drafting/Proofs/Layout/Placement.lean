import Drafting.Layout.Placement
import Drafting.Proofs.Partition

namespace Drafting

variable {α : Type} [Scalar α]

def Node.unplaced (n : Node α) : Node α := { n with x := 0, y := 0 }

@[simp] theorem Node.unplaced_placeCorner (n : Node α) (left top : α) :
    (n.placeCorner left top).unplaced = n.unplaced := by
  rw [placeCorner]
  split <;> rfl

@[simp] theorem Node.unplaced_placeCenter (n : Node α) (x y : α) :
    (n.placeCenter x y).unplaced = n.unplaced :=
  n.unplaced_placeCorner _ _

namespace Layout

variable {nodes : List (Node α)} {row placed : Placement α} {positions : List Nat}

def onNodes (g : Node α → Node α) (placed : Placement α) : Placement α :=
  placed.map fun p => (p.1, g p.2)

omit [Scalar α] in
@[simp] theorem onNodes_append (g : Node α → Node α) (row placed : Placement α) :
    onNodes g (row ++ placed) = onNodes g row ++ onNodes g placed := List.map_append

omit [Scalar α] in
theorem onNodes_comm {g h : Node α → Node α} (hgh : ∀ n, g (h n) = h (g n))
    (placed : Placement α) : onNodes g (onNodes h placed) = onNodes h (onNodes g placed) := by
  rw [onNodes, onNodes, onNodes, onNodes, List.map_map, List.map_map]
  exact List.map_congr_left fun p _ => congrArg (p.1, ·) (hgh p.2)

omit [Scalar α] in
@[simp] theorem map_snd_onNodes (g : Node α → Node α) (placed : Placement α) :
    (onNodes g placed).map Prod.snd = (placed.map Prod.snd).map g := by
  simp [onNodes]

omit [Scalar α] in
theorem lookup_onNodes (g : Node α → Node α) (placed : Placement α) (i : Nat) :
    (onNodes g placed).lookup i = (placed.lookup i).map g := by
  induction placed with
  | nil => rfl
  | cons p placed ih =>
      change List.lookup i ((p.1, g p.2) :: onNodes g placed) = _
      rw [List.lookup_cons, List.lookup_cons, ih]
      cases i == p.1 <;> rfl

omit [Scalar α] in
theorem pick_map (g : Node α → Node α) (nodes : List (Node α)) (positions : List Nat) :
    pick (nodes.map g) positions = onNodes g (pick nodes positions) := by
  rw [pick, pick, onNodes, List.map_filterMap]
  refine List.filterMap_congr fun i _ => ?_
  rw [List.getElem?_map]
  cases nodes[i]? <;> rfl

omit [Scalar α] in
theorem map_onNodes {β : Type} (g : Node α → Node α) {v : Node α → β} (h : ∀ n, v (g n) = v n)
    (placed : Placement α) :
    ((onNodes g placed).map fun p => v p.2) = placed.map fun p => v p.2 := by
  rw [onNodes, List.map_map]
  exact List.map_congr_left fun p _ => h p.2

omit [Scalar α] in
theorem filter_onNodes (g : Node α → Node α) {q : Nat × Node α → Bool}
    (h : ∀ p, q (p.1, g p.2) = q p) (placed : Placement α) :
    (onNodes g placed).filter q = onNodes g (placed.filter q) := by
  rw [onNodes, List.filter_map]
  exact congrArg (onNodes g) (List.filter_congr fun p _ => h p)

omit [Scalar α] in
/-- What is seen of settled nodes is seen of the placed ones where there are such, and of the old
ones elsewhere. -/
theorem map_settle_map {β : Type} {u g : Node α → Node α} {v w : Node α → β}
    (hg : ∀ n, v (g n) = w n)
    (hu : ∀ i n, nodes[i]? = some n → placed.lookup i = none → v (u n) = w n) :
    (settle (nodes.map u) (onNodes g placed)).map v = (settle nodes placed).map w := by
  rw [settle, settle, List.zipIdx_map, List.map_map, List.map_map, List.map_map]
  refine List.map_congr_left fun p hp => ?_
  have hn := List.mem_zipIdx_iff_getElem?.1 hp
  simp only [Function.comp_apply, Prod.map_fst, Prod.map_snd, id_eq, lookup_onNodes]
  cases hl : placed.lookup p.2 with
  | none => exact hu _ _ hn hl
  | some m => exact hg m

def blank (placed : Placement α) : Placement α := onNodes Node.unplaced placed

@[simp] theorem blank_append (row placed : Placement α) :
    blank (row ++ placed) = blank row ++ blank placed := List.map_append

/-- The same nodes at the same positions, whatever their places and their order. -/
def Moved (row placed : Placement α) : Prop := (blank placed).Perm (blank row)

theorem Moved.of_eq (h : blank placed = blank row) : Moved row placed := List.Perm.of_eq h

theorem Moved.trans {other : Placement α} (h : Moved row placed) (h' : Moved placed other) :
    Moved row other := List.Perm.trans h' h

theorem Moved.append {row' placed' : Placement α} (h : Moved row placed) (h' : Moved row' placed') :
    Moved (row ++ row') (placed ++ placed') := by
  rw [Moved, blank_append, blank_append]
  exact List.Perm.append h h'

theorem Moved.of_perm (h : placed.Perm row) : Moved row placed := h.map _

theorem blank_zipWith (left top : Node α → α → α) {row : Placement α} {xs : List α}
    (h : xs.length = row.length) :
    blank (List.zipWith (fun p x => (p.1, p.2.placeCorner (left p.2 x) (top p.2 x))) row xs) =
      blank row :=
  map_zipWith_left (fun p _ => congrArg (p.1, ·) (p.2.unplaced_placeCorner _ _)) h

theorem blank_placeRow (rule : RowRule α) (left top : α) (row : Placement α) :
    blank (placeRow rule left top row) = blank row :=
  blank_zipWith (fun _ x => x) (fun _ _ => top) (by simp)

theorem blank_flatMap_zip {β : Type} (f : Placement α × β → Placement α)
    (hf : ∀ p, blank (f p) = blank p.1) {rows : List (Placement α)} {xs : List β}
    (h : xs.length = rows.length) : blank ((rows.zip xs).flatMap f) = blank rows.flatten := by
  induction rows generalizing xs with
  | nil => rfl
  | cons row rows ih =>
      cases xs with
      | nil => simp at h
      | cons x xs =>
          have hl : xs.length = rows.length := by simpa using h
          rw [List.zip_cons_cons, List.flatMap_cons, List.flatten_cons, blank_append, blank_append,
            hf, ih hl]

theorem blank_placeRows (rule : RowRule α) (rows : List (Placement α)) :
    blank (placeRows rule rows) = blank rows.flatten :=
  blank_flatMap_zip _ (fun _ => blank_placeRow rule _ _ _) (by simp)

omit [Scalar α] in
theorem mem_pick {i : Nat} {n : Node α} :
    (i, n) ∈ pick nodes positions ↔ i ∈ positions ∧ nodes[i]? = some n := by
  rw [pick, List.mem_filterMap]
  constructor
  · rintro ⟨j, hj, h⟩
    obtain ⟨m, hm, he⟩ := Option.map_eq_some_iff.1 h
    cases he
    exact ⟨hj, hm⟩
  · rintro ⟨hi, hn⟩
    exact ⟨i, hi, by simp [hn]⟩

omit [Scalar α] in
theorem pick_append (nodes : List (Node α)) (positions more : List Nat) :
    pick nodes (positions ++ more) = pick nodes positions ++ pick nodes more :=
  List.filterMap_append

omit [Scalar α] in
theorem flatten_map_pick (nodes : List (Node α)) (layers : List (List Nat)) :
    (layers.map (pick nodes)).flatten = pick nodes layers.flatten := by
  induction layers with
  | nil => rfl
  | cons layer layers ih =>
      rw [List.map_cons, List.flatten_cons, ih, List.flatten_cons, pick_append]

omit [Scalar α] in
theorem pick_perm (nodes : List (Node α)) {positions other : List Nat} (h : positions.Perm other) :
    (pick nodes positions).Perm (pick nodes other) :=
  h.filterMap _

omit [Scalar α] in
theorem pick_range (nodes : List (Node α)) :
    pick nodes (List.range nodes.length) = nodes.zipIdx.map fun p => (p.2, p.1) := by
  rw [pick, ← map_snd_zipIdx, List.filterMap_map, ← List.filterMap_eq_map]
  refine List.filterMap_congr fun p hp => ?_
  simp [List.mem_zipIdx_iff_getElem?.1 hp]

theorem Moved.lookup_ne_none (h : Moved row placed) {i : Nat} {n : Node α} (hi : (i, n) ∈ row) :
    placed.lookup i ≠ none := by
  have hm : (i, n.unplaced) ∈ blank row := List.mem_map.2 ⟨_, hi, rfl⟩
  obtain ⟨p, hp, he⟩ := List.mem_map.1 ((List.Perm.mem_iff h).2 hm)
  have hpi : p.1 = i := congrArg Prod.fst he
  exact Option.isSome_iff_ne_none.1 (List.lookup_isSome_iff.2 ⟨p, hp, by simp [hpi]⟩)

theorem Moved.exists_of_mem (h : Moved row placed) {p : Nat × Node α} (hp : p ∈ placed) :
    ∃ n, (p.1, n) ∈ row ∧ p.2.unplaced = n.unplaced := by
  have hb : (p.1, p.2.unplaced) ∈ blank placed := List.mem_map.2 ⟨p, hp, rfl⟩
  obtain ⟨⟨j, n⟩, hn, hjn⟩ := List.mem_map.1 ((List.Perm.mem_iff h).1 hb)
  obtain ⟨hj, hu⟩ := Prod.ext_iff.1 hjn
  dsimp only at hj hu
  subst hj
  exact ⟨n, hn, hu.symm⟩

theorem Moved.exists_of_lookup (h : Moved row placed) {i : Nat} {m : Node α}
    (hm : placed.lookup i = some m) : ∃ n, (i, n) ∈ row ∧ m.unplaced = n.unplaced := by
  obtain ⟨before, after, he, _⟩ := List.lookup_eq_some_iff.1 hm
  exact h.exists_of_mem (show (i, m) ∈ placed by simp [he])

/-- Settling gives nodes new places and leaves the rest of them as it was. -/
theorem Moved.map_unplaced_settle (h : Moved row placed)
    (hrow : ∀ p ∈ row, nodes[p.1]? = some p.2) :
    (settle nodes placed).map Node.unplaced = nodes.map Node.unplaced := by
  have hz : nodes.zipIdx.map Prod.fst = nodes := List.zipIdx_map_fst 0 nodes
  conv => rhs; rw [← hz, List.map_map]
  rw [settle, List.map_map]
  refine List.map_congr_left fun p hp => ?_
  cases hl : placed.lookup p.2 with
  | none => simp [hl]
  | some m =>
      obtain ⟨n, hn, hu⟩ := h.exists_of_lookup hl
      cases (List.mem_zipIdx_iff_getElem?.1 hp).symm.trans (hrow _ hn)
      simpa [hl] using hu

def Covers (nodes : List (Node α)) (placed : Placement α) : Prop :=
  Moved (pick nodes (List.range nodes.length)) placed

theorem Moved.covers (h : Moved (pick nodes positions) placed)
    (hp : positions.Perm (List.range nodes.length)) : Covers nodes placed :=
  Moved.trans (.of_perm (pick_perm nodes hp)) h

theorem Covers.lookup_ne_none (h : Covers nodes placed) {i : Nat} {n : Node α}
    (hi : nodes[i]? = some n) : placed.lookup i ≠ none :=
  Moved.lookup_ne_none h (mem_pick.2 ⟨List.mem_range.2 (List.getElem?_eq_some_iff.1 hi).1, hi⟩)

theorem Covers.map_unplaced_settle (h : Covers nodes placed) :
    (settle nodes placed).map Node.unplaced = nodes.map Node.unplaced :=
  Moved.map_unplaced_settle h fun _ hp => (mem_pick.1 hp).2

theorem map_unplaced_normalize (padding : α) (nodes : List (Node α)) :
    (normalize padding nodes).map Node.unplaced = nodes.map Node.unplaced := by
  rw [normalize]
  cases Node.extent nodes with
  | none => rfl
  | some r =>
      dsimp only
      split
      · rfl
      · exact List.map_map

end Layout

end Drafting
