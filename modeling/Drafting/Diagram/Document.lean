import Drafting.Diagram
import Drafting.Json.Decode

namespace Drafting

open Json

namespace Point

def toJson (p : Point Float32) : Json := .object [("x", ofBinary32 p.x), ("y", ofBinary32 p.y)]

def ofJson? (j : Json) : Option (Point Float32) := do
  let [x, y] ← record? ["x", "y"] j | none
  some ⟨← (← x).scalar?, ← (← y).scalar?⟩

end Point

namespace Rect

def toJson (r : Rect Float32) : Json :=
  .object [("x", ofBinary32 r.x), ("y", ofBinary32 r.y), ("width", ofBinary32 r.width),
    ("height", ofBinary32 r.height)]

def ofJson? (j : Json) : Option (Rect Float32) := do
  let [x, y, width, height] ← record? ["x", "y", "width", "height"] j | none
  some ⟨← (← x).scalar?, ← (← y).scalar?, ← (← width).scalar?, ← (← height).scalar?⟩

end Rect

namespace Attribute

def toJson (a : Attribute) : Json :=
  .object [("name", .text a.name), ("type", .text a.type), ("visibility", .text a.visibility.name)]

def ofJson? (j : Json) : Option Attribute := do
  let [name, type, visibility] ← record? ["name", "type", "visibility"] j | none
  some ⟨← (← name).string?, ← (← type).string?, ← (← visibility).word? Visibility.ofName?⟩

end Attribute

namespace Method

def toJson (m : Method) : Json :=
  .object [("name", .text m.name), ("return_type", .text m.returns),
    ("parameters", .array (m.parameters.map .text)), ("visibility", .text m.visibility.name)]

def ofJson? (j : Json) : Option Method := do
  let [name, returns, parameters, visibility] ←
    record? ["name", "return_type", "parameters", "visibility"] j | none
  some ⟨← (← name).string?, ← (← returns).string?, ← (← parameters).list? string?,
    ← (← visibility).word? Visibility.ofName?⟩

end Method

namespace NodeData

def toJson : NodeData → Json
  | .members c =>
      .object [("type", .text "class"), ("attributes", .array (c.attributes.map Attribute.toJson)),
        ("methods", .array (c.methods.map Method.toJson))]
  | .level depth => .object [("type", .text "mindmap"), ("level", .ofNat depth)]

def ofJson? (j : Json) : Option NodeData := do
  let tag ← match j with
    | .array items => items.head?
    | _ => j.field? "type"
  match ← tag.string? with
  | "class" =>
      let [_, attributes, methods] ← record? ["type", "attributes", "methods"] j | none
      some (.members ⟨← (← attributes).list? Attribute.ofJson?, ← (← methods).list? Method.ofJson?⟩)
  | "mindmap" =>
      let [_, depth] ← record? ["type", "level"] j | none
      some (.level (← (← depth).count?))
  | _ => none

end NodeData

namespace Node

def toJson (n : Node Float32) : Json :=
  ofFields [("id", some (.text n.id)), ("kind", some (.text n.kind.name)),
    ("x", some (ofBinary32 n.x)), ("y", some (ofBinary32 n.y)),
    ("width", some (ofBinary32 n.width)), ("height", some (ofBinary32 n.height)),
    ("label", some (.text n.label)), ("data", n.data.map NodeData.toJson)]

def ofJson? (j : Json) : Option (Node Float32) := do
  let [id, kind, x, y, width, height, label, data] ←
    record? ["id", "kind", "x", "y", "width", "height", "label", "data"] j | none
  some
    { id := ← (← id).string?
      kind := ← (← kind).word? NodeKind.ofName?
      x := ← (← x).scalar?
      y := ← (← y).scalar?
      width := ← (← width).scalar?
      height := ← (← height).scalar?
      label := ← (← label).string?
      data := ← optional? NodeData.ofJson? data }

end Node

namespace Edge

def messageJson (order : Nat) : Json :=
  .object [("type", .text "message"), ("order", .ofNat order)]

def messageOfJson? (j : Json) : Option Nat := do
  let [tag, order] ← record? ["type", "order"] j | none
  let "message" ← (← tag).string? | none
  (← order).count?

def toJson (e : Edge) : Json :=
  ofFields [("id", some (.text e.id)), ("from", some (.text e.source)),
    ("to", some (.text e.target)), ("label", e.label.map .text),
    ("type", e.kind.map fun kind => .text kind.name), ("data", e.order.map messageJson)]

def ofJson? (j : Json) : Option Edge := do
  let [id, source, target, label, kind, data] ←
    record? ["id", "from", "to", "label", "type", "data"] j | none
  some
    { id := ← (← id).string?
      source := ← (← source).string?
      target := ← (← target).string?
      label := ← optional? string? label
      kind := ← optional? (word? EdgeKind.ofName?) kind
      order := ← optional? messageOfJson? data }

end Edge

namespace Diagram

def toJson (d : Diagram Float32) : Json :=
  .object [("kind", .text d.kind.name), ("nodes", .array (d.nodes.map Node.toJson)),
    ("edges", .array (d.edges.map Edge.toJson)),
    ("metadata", ofFields [("title", d.title.map .text),
      ("skipped_lines", some (.array (d.skipped.map .ofNat))),
      ("unresolved", some (.array (d.unresolved.map .text)))])]

def ofJson? (j : Json) : Option (Diagram Float32) := do
  let [kind, nodes, edges, metadata] ← record? ["kind", "nodes", "edges", "metadata"] j | none
  let [title, skipped, unresolved] ←
    record? ["title", "skipped_lines", "unresolved"] (← metadata) | none
  some
    { kind := ← (← kind).word? DiagramKind.ofName?
      nodes := ← (← nodes).list? Node.ofJson?
      edges := ← (← edges).list? Edge.ofJson?
      title := ← optional? string? title
      skipped := ← (← skipped).list? count?
      unresolved := ← (← unresolved).list? string? }

end Diagram

end Drafting
