import Drafting.Proofs.Layout.Stable
import Drafting.Proofs.Page.Boxes
import Mathlib.Logic.Equiv.Basic

namespace Drafting

variable {α : Type} (f : String → String)

def Page.rename (p : Page α) : Page α :=
  { p with nodes := p.nodes.map (Node.rename f), edges := p.edges.map (Edge.rename f) }

def Page.Selection.rename (sel : Page.Selection α) : Page.Selection α :=
  { sel with nodes := sel.nodes.map (Node.rename f), edges := sel.edges.map (Edge.rename f) }

variable {f} [Scalar α] {d : Diagram α}

namespace Diagram

omit [Scalar α] in
theorem joints_rename (hf : Set.InjOn f d.mentions) : (d.rename f).joints = d.joints := by
  rw [joints, joints, links_rename hf, List.map_map]
  rfl

omit [Scalar α] in
theorem sameSkeleton_rename (hf : Set.InjOn f d.mentions) : SameSkeleton d (d.rename f) where
  kind := rfl
  kinds := List.map_map
  joints := joints_rename hf

theorem isRecast_unplaced_rename (hf : Set.InjOn f d.mentions) :
    IsRecast f d (d.rename f).unplaced where
  kind := rfl
  nodes := List.map_map
  joints := by rw [(isRecast_unplaced _).joints, joints_rename hf]

theorem layout_rename (s : LayoutSettings α) (hf : Set.InjOn f d.mentions) :
    (d.rename f).layout s = (d.layout s).rename f :=
  congrArg (fun nodes => { d.rename f with nodes })
    ((isRecast_unplaced_rename hf).layout_of_unplaced s)

end Diagram

namespace Page

open Diagram

omit [Scalar α] in
theorem any_rename {names : Set String} (hf : Set.InjOn f names) {nodes : List (Node α)}
    (hn : ∀ n ∈ nodes, n.id ∈ names) {id : String} (hid : id ∈ names) :
    (nodes.map (Node.rename f)).any (·.id == f id) = nodes.any (·.id == id) := by
  rw [List.any_map, Bool.eq_iff_iff]
  simp only [List.any_eq_true, Function.comp_apply, beq_iff_eq]
  constructor
  · rintro ⟨n, hm, he⟩
    exact ⟨n, hm, hf (hn n hm) hid he⟩
  · rintro ⟨n, hm, rfl⟩
    exact ⟨n, hm, rfl⟩

theorem nodes_select_rename (d : Diagram α) (connected connected' : List Edge)
    (group : List Nat) : (select (d.rename f) connected' group).nodes =
      (select d connected group).nodes.map (Node.rename f) := by
  change ((d.nodes.map (Node.rename f)).zipIdx.filter _).map Prod.fst = List.map _ (List.map _ _)
  rw [List.zipIdx_map, List.filter_map, List.map_map, List.map_map]
  rfl

theorem shown_select_rename (hf : Set.InjOn f d.mentions) (connected connected' : List Edge)
    (group : List Nat) {id : String} (hid : id ∈ d.mentions) :
    (select (d.rename f) connected' group).nodes.any (·.id == f id) =
      (select d connected group).nodes.any (·.id == id) := by
  have hmentions : ∀ n ∈ (select d connected group).nodes, n.id ∈ d.mentions := by
    intro n hn
    exact .inl (List.mem_map_of_mem ((nodes_select_sublist connected group).subset hn))
  rw [nodes_select_rename d connected, any_rename hf hmentions hid]

theorem select_rename (hf : Set.InjOn f d.mentions) (group : List Nat) :
    select (d.rename f) (d.rename f).connected group =
      (select d d.connected group).rename f := by
  let nodes := (select d d.connected group).nodes
  let nodes' := (select (d.rename f) (d.rename f).connected group).nodes
  have hnodes : nodes' = nodes.map (Node.rename f) := nodes_select_rename d _ _ group
  have hframe : (Node.extent nodes').getD .zero = (Node.extent nodes).getD .zero := by
    rw [hnodes, Node.extent_rename]
  have hfilter (q : Bool → Bool → Bool) : ((d.rename f).connected.filter fun e =>
      q (nodes'.any (·.id == e.source)) (nodes'.any (·.id == e.target))) =
      (d.connected.filter fun e =>
        q (nodes.any (·.id == e.source)) (nodes.any (·.id == e.target))).map (Edge.rename f) := by
    rw [connected_rename hf, List.filter_map]
    refine congrArg (List.map _) (List.filter_congr fun e he => ?_)
    rw [connected_eq_filter] at he
    have hm := List.mem_of_mem_filter he
    exact congrArg₂ q (shown_select_rename hf _ _ group (source_mem_mentions hm))
      (shown_select_rename hf _ _ group (target_mem_mentions hm))
  have hexternal := congrArg (List.map Edge.id) (hfilter (· != ·))
  rw [List.map_map] at hexternal
  exact congr (congr (congr (congrArg (Selection.mk · 0) hframe) hnodes) (hfilter (· && ·)))
    hexternal

theorem selectMessages_rename (s : PageSettings α) (d : Diagram α)
    (page : List Conversation.Message) :
    selectMessages s (d.rename f) page = (selectMessages s d page).rename f := by
  have hextent : Node.extent (d.rename f).nodes = Node.extent d.nodes := Node.extent_rename f _
  have hedges : (page.filterMap fun m => (d.edges.map (Edge.rename f))[m.position]?) =
      (page.filterMap fun m => d.edges[m.position]?).map (Edge.rename f) := by
    rw [List.map_filterMap]
    simp only [List.getElem?_map]
  rw [selectMessages, hextent]
  exact congrArg (Selection.mk _ _ _ · []) hedges

theorem conversation_rename (s : PageSettings α) (hf : Set.InjOn f d.mentions) :
    conversation s (d.rename f) = (conversation s d).map (Selection.rename f) := by
  have hmessages : Conversation.messages (d.rename f) = Conversation.messages d := by
    rw [Conversation.messages, links_rename hf, List.map_map]
    rfl
  rw [conversation, conversation, hmessages, List.map_map]
  exact List.map_congr_left fun page _ => selectMessages_rename s d page

theorem selections_rename (s : PageSettings α) (hf : Set.InjOn f d.mentions) :
    selections s (d.rename f) = (selections s d).map (Selection.rename f) := by
  by_cases hk : d.kind = .sequence
  · have hempty : (d.rename f).nodes.isEmpty = d.nodes.isEmpty := List.isEmpty_map
    rw [selections_conversation hk, selections_conversation (d := d.rename f) hk, hempty,
      conversation_rename s hf]
    split <;> rfl
  · have hgroups : groupsOf s (d.rename f) = groupsOf s d :=
      groupsOf_congr s (sameSkeleton_rename hf) List.map_map
    rw [selections_eq hk, selections_eq (d := d.rename f) hk, hgroups, List.map_map]
    exact List.map_congr_left fun group _ => select_rename hf group

theorem ofSelection_rename (s : PageSettings α) (title : Option String) (total j : Nat)
    (sel : Selection α) :
    ofSelection s title total j (sel.rename f) = (ofSelection s title total j sel).rename f := by
  have hnodes : (sel.nodes.map (Node.rename f)).map (Node.lower sel.shift) =
      (sel.nodes.map (Node.lower sel.shift)).map (Node.rename f) := by
    rw [List.map_map, List.map_map]
    rfl
  exact congrArg (Page.mk _ _ _ _ · _ _) hnodes

theorem pages_rename (s : PageSettings α) (hf : Set.InjOn f d.mentions) :
    (d.rename f).pages s = (d.pages s).map (Page.rename f) := by
  rw [pages_eq, pages_eq, selections_rename s hf, List.length_map]
  refine List.ext_getElem? fun j => ?_
  rw [List.getElem?_mapIdx, List.getElem?_map, List.getElem?_map, List.getElem?_mapIdx,
    Option.map_map, Option.map_map]
  exact congrArg (Option.map · _) (funext fun sel => ofSelection_rename ..)

end Page

/-- A renaming that keeps apart all that a diagram names runs through its layout and its pages: the
nodes stand where they stood, and every page shows what it showed, under the new names. -/
theorem Diagram.layout_pages_rename (s : Settings α) (d : Diagram α)
    (hf : Set.InjOn f d.mentions) :
    (d.rename f).layout s.layout = (d.layout s.layout).rename f ∧
      (d.rename f).pages s.pages = (d.pages s.pages).map (Page.rename f) :=
  ⟨layout_rename s.layout hf, Page.pages_rename s.pages hf⟩

def Diagram.twoActors : Diagram Float32 where
  kind := .useCase
  nodes :=
    [⟨"node-9", .actor, 0, 0, 80, 100, "Clerk", none⟩,
      ⟨"node-10", .useCase, 0, 0, 140, 60, "Fetch mail", none⟩,
      ⟨"node-11", .actor, 0, 0, 80, 100, "Postman", none⟩]
  edges :=
    [⟨"edge-1", "node-9", "node-10", none, some .association, none⟩,
      ⟨"edge-2", "node-11", "node-10", none, some .association, none⟩,
      ⟨"edge-3", "node-11", "nobody", none, some .association, none⟩]
  title := none
  skipped := []
  unresolved := []

theorem Diagram.twoActors_layout_pages_rename :
    let f := Equiv.swap "node-9" "node-10"
    Set.InjOn f Diagram.twoActors.mentions ∧
      (Diagram.twoActors.rename f).layout .standard =
        (Diagram.twoActors.layout .standard).rename f ∧
      (Diagram.twoActors.rename f).pages .standard =
        (Diagram.twoActors.pages .standard).map (Page.rename f) := by
  intro f
  have hf : Set.InjOn f Diagram.twoActors.mentions := f.injective.injOn
  exact ⟨hf, Diagram.layout_pages_rename .standard Diagram.twoActors hf⟩

end Drafting
