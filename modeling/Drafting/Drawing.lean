import Drafting.Json.Value
import Drafting.Page
import Drafting.Route

namespace Drafting

open Json

structure Shape (α : Type) where
  id : String
  kind : NodeKind
  label : String
  box : Rect α
  level : Option Nat
deriving DecidableEq

structure Stroke (α : Type) where
  edge : Edge
  points : List (Point α)
  control : Option (Point α)
deriving DecidableEq

structure Drawing (α : Type) where
  kind : DiagramKind
  title : Option String
  width : α
  height : α
  shapes : List (Shape α)
  strokes : List (Stroke α)
  skipped : List Nat
  unresolved : List String
deriving DecidableEq

structure Sheet (α : Type) where
  number : Nat
  total : Nat
  title : String
  viewBox : Rect α
  shapes : List (Shape α)
  strokes : List (Stroke α)
  external : List String
deriving DecidableEq

structure Folio (α : Type) where
  kind : DiagramKind
  sheets : List (Sheet α)
deriving DecidableEq

variable {α : Type} [Scalar α]

def Shape.ofNode (n : Node α) : Shape α := ⟨n.id, n.kind, n.label, n.box, n.level⟩

def Stroke.ofEdge (routes : List (Route α)) (e : Edge) : Stroke α :=
  match routes.reverse.find? (·.edge == e.id) with
  | some r => ⟨e, r.points, r.curve.map Curve.control⟩
  | none => ⟨e, [], none⟩

/-- The drawing of a whole diagram. Beyond its nodes there is padding on the far sides; the near
ones have theirs already. -/
def Drawing.ofDiagram (d : Diagram α) (routes : List (Route α)) (padding : α) : Drawing α :=
  let size := match d.extent with
    | some r => (r.right + padding, r.bottom + padding)
    | none => (0, 0)
  { kind := d.kind
    title := d.title
    width := size.1
    height := size.2
    shapes := d.nodes.map Shape.ofNode
    strokes := d.connected.map (Stroke.ofEdge routes)
    skipped := d.skipped
    unresolved := d.unresolved }

def Sheet.ofPage (routes : List (Route α)) (p : Page α) : Sheet α :=
  { number := p.number
    total := p.total
    title := p.title
    viewBox := p.viewBox
    shapes := p.nodes.map Shape.ofNode
    strokes := p.edges.map (Stroke.ofEdge routes)
    external := p.external }

def Folio.ofPages (d : Diagram α) (pages : List (Page α)) (routes : List (Route α)) : Folio α :=
  ⟨d.kind, pages.map (Sheet.ofPage routes)⟩

def pairJson (p : Point Float32) : Json := .array [ofBinary32 p.x, ofBinary32 p.y]

def Shape.toJson (s : Shape Float32) : Json :=
  ofFields [("id", some (.text s.id)), ("kind", some (.text s.kind.name)),
    ("label", some (.text s.label)), ("x", some (ofBinary32 s.box.x)),
    ("y", some (ofBinary32 s.box.y)), ("width", some (ofBinary32 s.box.width)),
    ("height", some (ofBinary32 s.box.height)), ("center", some (pairJson s.box.center)),
    ("level", s.level.map .ofNat)]

def Stroke.toJson (s : Stroke Float32) : Json :=
  ofFields [("id", some (.text s.edge.id)), ("from", some (.text s.edge.source)),
    ("to", some (.text s.edge.target)), ("kind", s.edge.kind.map fun kind => .text kind.name),
    ("label", s.edge.label.map .text), ("order", s.edge.order.map .ofNat),
    ("points", some (.array (s.points.map pairJson))), ("control", s.control.map pairJson)]

def Drawing.toJson (d : Drawing Float32) : Json :=
  ofFields [("kind", some (.text d.kind.name)), ("title", d.title.map .text),
    ("width", some (ofBinary32 d.width)), ("height", some (ofBinary32 d.height)),
    ("nodes", some (.array (d.shapes.map Shape.toJson))),
    ("edges", some (.array (d.strokes.map Stroke.toJson))),
    ("skipped_lines", some (.array (d.skipped.map .ofNat))),
    ("unresolved", some (.array (d.unresolved.map .text)))]

def Sheet.toJson (s : Sheet Float32) : Json :=
  .object [("page_number", .ofNat s.number), ("total_pages", .ofNat s.total),
    ("title", .text s.title),
    ("view_box", .array [ofBinary32 s.viewBox.x, ofBinary32 s.viewBox.y,
      ofBinary32 s.viewBox.width, ofBinary32 s.viewBox.height]),
    ("nodes", .array (s.shapes.map Shape.toJson)), ("edges", .array (s.strokes.map Stroke.toJson)),
    ("external_edges", .array (s.external.map .text))]

def Folio.toJson (f : Folio Float32) : Json :=
  .object [("kind", .text f.kind.name), ("pages", .array (f.sheets.map Sheet.toJson))]

end Drafting
