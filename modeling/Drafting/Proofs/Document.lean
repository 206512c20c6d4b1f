import Drafting.Diagram.Document
import Drafting.Proofs.Json.Decode

namespace Drafting

open Json

theorem Attribute.ofJson?_toJson (a : Attribute) : ofJson? a.toJson = some a := by
  have hr : record? ["name", "type", "visibility"] a.toJson = _ := record?_object (by decide) rfl
  simp [ofJson?, hr, string?_text, word?_text, Visibility.ofName?_name]

theorem Method.ofJson?_toJson (m : Method) : ofJson? m.toJson = some m := by
  have hr : record? ["name", "return_type", "parameters", "visibility"] m.toJson = _ :=
    record?_object (by decide) rfl
  have hp : (Json.array (m.parameters.map .text)).list? string? = some m.parameters :=
    list?_map fun s _ => string?_text s
  simp [ofJson?, hr, hp, string?_text, word?_text, Visibility.ofName?_name]

namespace NodeData

def counts : NodeData → List Nat
  | .members _ => []
  | .level depth => [depth]

theorem ofJson?_toJson {data : NodeData} (h : ∀ k ∈ data.counts, k < UInt64.size) :
    ofJson? data.toJson = some data := by
  cases data with
  | members c =>
      have hr : record? ["type", "attributes", "methods"] (members c).toJson = _ :=
        record?_object (by decide) rfl
      have ht : (members c).toJson.field? "type" = some (.text "class") := rfl
      have ha : (Json.array (c.attributes.map Attribute.toJson)).list? Attribute.ofJson? =
          some c.attributes := list?_map fun a _ => a.ofJson?_toJson
      have hm : (Json.array (c.methods.map Method.toJson)).list? Method.ofJson? =
          some c.methods := list?_map fun m _ => m.ofJson?_toJson
      rw [toJson] at *
      simp [ofJson?, hr, ht, ha, hm, string?_text]
  | level depth =>
      have hr : record? ["type", "level"] (level depth).toJson = _ :=
        record?_object (by decide) rfl
      have ht : (level depth).toJson.field? "type" = some (.text "mindmap") := rfl
      have hd : (Json.ofNat depth).count? = some depth :=
        count?_ofNat (h depth (List.mem_singleton_self depth))
      rw [toJson] at *
      simp [ofJson?, hr, ht, hd, string?_text]

end NodeData

namespace Node

def scalars (n : Node Float32) : List Float32 := [n.x, n.y, n.width, n.height]

def counts (n : Node Float32) : List Nat := n.data.toList.flatMap NodeData.counts

theorem ofJson?_toJson {n : Node Float32} (hs : ∀ x ∈ n.scalars, (ofBinary32 x).scalar? = some x)
    (hc : ∀ k ∈ n.counts, k < UInt64.size) : ofJson? n.toJson = some n := by
  have hr : record? ["id", "kind", "x", "y", "width", "height", "label", "data"] n.toJson = _ :=
    record?_ofFields (by decide) rfl
  have hd : optional? NodeData.ofJson? (n.data.map NodeData.toJson) = some n.data := by
    refine optional?_map (fun data hm => NodeData.ofJson?_toJson fun k hk => hc k ?_) rfl
    exact List.mem_flatMap.2 ⟨data, Option.mem_toList.2 hm, hk⟩
  simp only [scalars, List.forall_mem_cons] at hs
  obtain ⟨hx, hy, hw, hh, -⟩ := hs
  simp [ofJson?, hr, hd, hx, hy, hw, hh, string?_text, word?_text, NodeKind.ofName?_name]

end Node

namespace Edge

theorem messageOfJson?_messageJson {order : Nat} (h : order < UInt64.size) :
    messageOfJson? (messageJson order) = some order := by
  have hr : record? ["type", "order"] (messageJson order) = _ := record?_object (by decide) rfl
  simp [messageOfJson?, hr, string?_text, count?_ofNat h]

theorem ofJson?_toJson {e : Edge} (h : ∀ k ∈ e.order, k < UInt64.size) :
    ofJson? e.toJson = some e := by
  have hr : record? ["id", "from", "to", "label", "type", "data"] e.toJson = _ :=
    record?_ofFields (by decide) rfl
  have hl : optional? string? (e.label.map .text) = some e.label :=
    optional?_map (fun s _ => string?_text s) rfl
  have hk : optional? (word? EdgeKind.ofName?) (e.kind.map fun kind => .text kind.name) =
      some e.kind := optional?_map (fun kind _ => kind.ofName?_name) rfl
  have hd : optional? messageOfJson? (e.order.map messageJson) = some e.order :=
    optional?_map (fun order hm => messageOfJson?_messageJson (h order hm)) rfl
  simp [ofJson?, hr, hl, hk, hd, string?_text]

end Edge

namespace Diagram

def scalars (d : Diagram Float32) : List Float32 := d.nodes.flatMap Node.scalars

def counts (d : Diagram Float32) : List Nat :=
  d.nodes.flatMap Node.counts ++ d.edges.filterMap Edge.order ++ d.skipped

/-- Whatever its names, its texts and its optional parts, a diagram of finite numbers that are read
as they are written is itself read as it is written. Counts are 64-bit words. -/
theorem document_round_trip (d : Diagram Float32) (hcounts : ∀ k ∈ d.counts, k < UInt64.size)
    (hfinite : ∀ x ∈ d.scalars, Binary32.isFinite x)
    (hreads : ∀ x ∈ d.scalars, Binary32.isFinite x → (ofBinary32 x).scalar? = some x) :
    ofJson? d.toJson = some d := by
  simp only [counts, List.forall_mem_append, List.forall_mem_flatMap, List.forall_mem_filterMap]
    at hcounts
  obtain ⟨⟨hdepths, hrows⟩, hlines⟩ := hcounts
  have hr : record? ["kind", "nodes", "edges", "metadata"] d.toJson = _ :=
    record?_object (by decide) rfl
  have hm : record? ["title", "skipped_lines", "unresolved"] (ofFields
      [("title", d.title.map .text), ("skipped_lines", some (.array (d.skipped.map .ofNat))),
        ("unresolved", some (.array (d.unresolved.map .text)))]) = _ :=
    record?_ofFields (by decide) rfl
  have hnodes : (Json.array (d.nodes.map Node.toJson)).list? Node.ofJson? = some d.nodes := by
    refine list?_map fun n hn => Node.ofJson?_toJson (fun x hx => ?_) (hdepths n hn)
    have hx : x ∈ d.scalars := List.mem_flatMap.2 ⟨n, hn, hx⟩
    exact hreads x hx (hfinite x hx)
  have hedges : (Json.array (d.edges.map Edge.toJson)).list? Edge.ofJson? = some d.edges :=
    list?_map fun e he => Edge.ofJson?_toJson (hrows e he)
  have htitle : optional? string? (d.title.map .text) = some d.title :=
    optional?_map (fun s _ => string?_text s) rfl
  have hskipped : (Json.array (d.skipped.map .ofNat)).list? count? = some d.skipped :=
    list?_map fun k hk => count?_ofNat (hlines k hk)
  have hunresolved : (Json.array (d.unresolved.map .text)).list? string? = some d.unresolved :=
    list?_map fun s _ => string?_text s
  simp [ofJson?, hr, hm, hnodes, hedges, htitle, hskipped, hunresolved, word?_text,
    DiagramKind.ofName?_name]

def mixedParts : Diagram Float32 where
  kind := .generic
  nodes :=
    [⟨"node-1", .classBox, 40, -0.0, 0.1, 1e-45, "A \"quoted\" name",
        some (.members ⟨[⟨"size", "Int", .isPrivate⟩], [⟨"grow", "void", ["by", ""], .isPublic⟩]⟩)⟩,
      ⟨"", .leaf, 1 / 3, -3.4e38, 120, 60, "", some (.level 2)⟩,
      ⟨"node-1", .actor, 0, 0, 100, 50, "Ann", none⟩]
  edges :=
    [⟨"edge-1", "node-1", "nobody", some "", some .extension, some 18446744073709551615⟩,
      ⟨"edge-2", "", "node-1", none, none, none⟩]
  title := none
  skipped := [3, 1]
  unresolved := ["nobody"]

theorem mixedParts_round_trip :
    (∀ k ∈ mixedParts.counts, k < UInt64.size) ∧
      (∀ x ∈ mixedParts.scalars, Binary32.isFinite x) ∧
      (∀ x ∈ mixedParts.scalars, Binary32.isFinite x → (ofBinary32 x).scalar? = some x) ∧
      ofJson? mixedParts.toJson = some mixedParts := by
  have hcounts : ∀ k ∈ mixedParts.counts, k < UInt64.size := by decide
  have hfinite : ∀ x ∈ mixedParts.scalars, Binary32.isFinite x := by decide +kernel
  have hreads : ∀ x ∈ mixedParts.scalars,
      Binary32.isFinite x → (ofBinary32 x).scalar? = some x := by
    decide +kernel
  exact ⟨hcounts, hfinite, hreads, document_round_trip mixedParts hcounts hfinite hreads⟩

/-- Not every finite number is read as it is written. From seven digits this one is rounded to the
middle between two single precision numbers first, and then to the wrong one of them. -/
example : Decimal.ofBinary32? (.ofBits 0x15ae43fd) = some ⟨false, 7038531, -32⟩ ∧
    (ofBinary32 (.ofBits 0x15ae43fd)).scalar? = some (.ofBits 0x15ae43fe) := by
  decide +kernel

end Diagram

end Drafting
