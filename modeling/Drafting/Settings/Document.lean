import Drafting.Settings
import Drafting.Json.Decode
import Drafting.Json.Strict
import Drafting.Json.Relaxed

namespace Drafting.Settings

open Json

inductive Dialect where
  | strict
  | relaxed
deriving DecidableEq

namespace Dialect

def scalar? : Dialect → Json → Option Float32
  | .strict, j => j.scalar?
  | .relaxed, .number n =>
      match n with
      | .whole negative n => Decimal.toBinary32ViaDouble? ⟨negative, n, 0⟩
      | .decimal d => d.toBinary32ViaDouble?
      | .hexadecimal n => Decimal.toBinary32ViaDouble? ⟨false, n, 0⟩
      | .infinite negative =>
          some (if negative then Binary32.negInfinity else Binary32.infinity)
      | .undefined => some Binary32.undefined
      | .unreadable => none
  | .relaxed, _ => none

def isNumber : Numeral → Bool
  | .whole negative n => if negative then n ≤ UInt64.size / 2 else n < UInt64.size / 2
  | .decimal d => d.toBinary32ViaDouble?.isSome
  | .hexadecimal _ | .infinite _ | .undefined => true
  | .unreadable => false

mutual

def isReadable : Json → Bool
  | .number n => isNumber n
  | .unpaired => false
  | .array items => allReadable items
  | .object fields => allFieldsReadable fields
  | _ => true

def allReadable : List Json → Bool
  | [] => true
  | j :: js => isReadable j && allReadable js

def allFieldsReadable : List (String × Json) → Bool
  | [] => true
  | (_, j) :: fs => isReadable j && allFieldsReadable fs

end

def passes : Dialect → Json → Bool
  | .strict, _ => true
  | .relaxed, j => isReadable j

def strategy? : Dialect → Json → Option BreakStrategy
  | .strict, j => j.word? BreakStrategy.ofName?
  | .relaxed, .text s => BreakStrategy.ofName? s
  | .relaxed, .object ((s, .null) :: _) => BreakStrategy.ofName? s
  | .relaxed, _ => none

def single? (fields : List (String × Json)) (names : List String) : Option (Option Json) :=
  match fields.filter fun f => names.contains f.1 with
  | [] => some none
  | [f] => some (some f.2)
  | _ => none

/-- The fields of a group, each with its names, in order. An array has to be long enough, and in
the strict notation no longer. -/
def fields? (dialect : Dialect) (names : List (List String)) : Json →
    Option (List (Option Json))
  | .object fields => do
      let known (key : String) : Bool := names.any (·.contains key)
      if fields.all fun f => known f.1 || dialect.passes f.2 then names.mapM (single? fields)
      else none
  | .array items =>
      if items.length = names.length ∨ dialect = .relaxed ∧ names.length ≤ items.length then
        some ((items.take names.length).map some)
      else none
  | _ => none

def scalars? (dialect : Dialect) (names : List String) (j : Json) :
    Option (List (Option Float32)) := do
  let fields ← dialect.fields? (names.map ([·])) j
  fields.mapM (optional? dialect.scalar?)

end Dialect

structure PagePart where
  maxWidth : Option Float32
  maxHeight : Option Float32
  overlapMargin : Option Float32
  padding : Option Float32
  strategy : Option BreakStrategy
  pixelsPerMessage : Option Float32
  bandTolerance : Option Float32

structure Document where
  padding : Option Float32
  hierarchy : Option (HierarchySettings (Option Float32))
  flow : Option (FlowSettings (Option Float32))
  mindmap : Option (MindmapSettings (Option Float32))
  sequence : Option (SequenceSettings (Option Float32))
  useCase : Option (UseCaseSettings (Option Float32))
  routing : Option (RoutingSettings (Option Float32))
  pages : Option PagePart

namespace Document

def hierarchy? (dialect : Dialect) (j : Json) : Option (HierarchySettings (Option Float32)) := do
  let [horizontal, vertical, node, layer] ← dialect.scalars?
    ["horizontalSpacing", "verticalSpacing", "nodeMargin", "layerMargin"] j | none
  some ⟨horizontal, vertical, node, layer⟩

def flow? (dialect : Dialect) (j : Json) : Option (FlowSettings (Option Float32)) := do
  let [node, rank, minX] ← dialect.scalars? ["nodeSeparation", "rankSeparation", "minX"] j | none
  some ⟨node, rank, minX⟩

def mindmap? (dialect : Dialect) (j : Json) : Option (MindmapSettings (Option Float32)) := do
  let [unit, step] ← dialect.scalars? ["unitHeight", "horizontalStep"] j | none
  some ⟨unit, step⟩

def sequence? (dialect : Dialect) (j : Json) : Option (SequenceSettings (Option Float32)) := do
  let [spacing, header, row] ← dialect.scalars?
    ["actorSpacing", "headerHeight", "pixelsPerMessage"] j | none
  some ⟨spacing, header, row⟩

def useCase? (dialect : Dialect) (j : Json) : Option (UseCaseSettings (Option Float32)) := do
  let [column, row] ← dialect.scalars? ["columnGap", "rowGap"] j | none
  some ⟨column, row⟩

def routing? (dialect : Dialect) (j : Json) : Option (RoutingSettings (Option Float32)) := do
  let [spacing, cap] ← dialect.scalars? ["parallelSpacing", "curveCap"] j | none
  some ⟨spacing, cap⟩

def pages? (dialect : Dialect) (j : Json) : Option PagePart := do
  let [width, height, overlap, padding, strategy, row, tolerance] ← dialect.fields?
    [["maxWidth"], ["maxHeight"], ["overlapMargin"], ["padding"], ["strategy"],
      ["pixelsPerMessage"], ["bandTolerance"]] j | none
  let scalar := optional? dialect.scalar?
  some
    { maxWidth := ← scalar width
      maxHeight := ← scalar height
      overlapMargin := ← scalar overlap
      padding := ← scalar padding
      strategy := ← optional? dialect.strategy? strategy
      pixelsPerMessage := ← scalar row
      bandTolerance := ← scalar tolerance }

def ofJson? (dialect : Dialect) (j : Json) : Option Document := do
  let [padding, hierarchy, flow, mindmap, sequence, useCase, routing, pages] ← dialect.fields?
    [["padding"], ["hierarchical"], ["flow"], ["mindmap"], ["sequence"], ["usecase", "useCase"],
      ["routing"], ["pagination"]] j | none
  some
    { padding := ← optional? dialect.scalar? padding
      hierarchy := ← optional? (hierarchy? dialect) hierarchy
      flow := ← optional? (flow? dialect) flow
      mindmap := ← optional? (mindmap? dialect) mindmap
      sequence := ← optional? (sequence? dialect) sequence
      useCase := ← optional? (useCase? dialect) useCase
      routing := ← optional? (routing? dialect) routing
      pages := ← optional? (pages? dialect) pages }

def read? (text : List Char) : Option Document :=
  ((Strict.read? text).bind (ofJson? .strict)).or
    ((Relaxed.read? text).bind (ofJson? .relaxed))

/-- The rows of messages that a page counts with: its own, or else those of the layout. -/
def messageRows (doc : Document) : Option Float32 :=
  (doc.pages.bind PagePart.pixelsPerMessage).or
    (doc.sequence.bind SequenceSettings.pixelsPerMessage)

def override (doc : Document) (s : Settings Float32) : Settings Float32 :=
  let l := s.layout
  { layout :=
      { padding := doc.padding.getD l.padding
        hierarchy := match doc.hierarchy with
          | none => l.hierarchy
          | some h =>
              ⟨h.horizontalSpacing.getD l.hierarchy.horizontalSpacing,
                h.verticalSpacing.getD l.hierarchy.verticalSpacing,
                h.nodeMargin.getD l.hierarchy.nodeMargin,
                h.layerMargin.getD l.hierarchy.layerMargin⟩
        flow := match doc.flow with
          | none => l.flow
          | some f =>
              ⟨f.nodeSeparation.getD l.flow.nodeSeparation,
                f.rankSeparation.getD l.flow.rankSeparation, f.minX.getD l.flow.minX⟩
        mindmap := match doc.mindmap with
          | none => l.mindmap
          | some m =>
              ⟨m.unitHeight.getD l.mindmap.unitHeight,
                m.horizontalStep.getD l.mindmap.horizontalStep⟩
        sequence := match doc.sequence with
          | none => l.sequence
          | some q =>
              ⟨q.actorSpacing.getD l.sequence.actorSpacing,
                q.headerHeight.getD l.sequence.headerHeight,
                q.pixelsPerMessage.getD l.sequence.pixelsPerMessage⟩
        useCase := match doc.useCase with
          | none => l.useCase
          | some u => ⟨u.columnGap.getD l.useCase.columnGap, u.rowGap.getD l.useCase.rowGap⟩
        routing := match doc.routing with
          | none => l.routing
          | some r =>
              ⟨r.parallelSpacing.getD l.routing.parallelSpacing,
                r.curveCap.getD l.routing.curveCap⟩ }
    pages :=
      { s.pages with
        maxWidth := (doc.pages.bind PagePart.maxWidth).getD s.pages.maxWidth
        maxHeight := (doc.pages.bind PagePart.maxHeight).getD s.pages.maxHeight
        overlapMargin := (doc.pages.bind PagePart.overlapMargin).getD s.pages.overlapMargin
        padding := (doc.pages.bind PagePart.padding).getD s.pages.padding
        strategy := (doc.pages.bind PagePart.strategy).getD s.pages.strategy
        pixelsPerMessage := doc.messageRows.getD s.pages.pixelsPerMessage
        bandTolerance := (doc.pages.bind PagePart.bandTolerance).getD s.pages.bandTolerance } }

end Document

def read? (text : List Char) : Option (Settings Float32) :=
  (Document.read? text).map fun doc => doc.override .standard

def layoutJson (s : LayoutSettings Float32) : Json :=
  .object [("padding", ofBinary32 s.padding),
    ("hierarchical", .object [("horizontal_spacing", ofBinary32 s.hierarchy.horizontalSpacing),
      ("vertical_spacing", ofBinary32 s.hierarchy.verticalSpacing),
      ("node_margin", ofBinary32 s.hierarchy.nodeMargin),
      ("layer_margin", ofBinary32 s.hierarchy.layerMargin)]),
    ("flow", .object [("node_separation", ofBinary32 s.flow.nodeSeparation),
      ("rank_separation", ofBinary32 s.flow.rankSeparation),
      ("min_x", ofBinary32 s.flow.minX)]),
    ("mindmap", .object [("unit_height", ofBinary32 s.mindmap.unitHeight),
      ("horizontal_step", ofBinary32 s.mindmap.horizontalStep)]),
    ("sequence", .object [("actor_spacing", ofBinary32 s.sequence.actorSpacing),
      ("header_height", ofBinary32 s.sequence.headerHeight),
      ("pixels_per_message", ofBinary32 s.sequence.pixelsPerMessage)]),
    ("usecase", .object [("column_gap", ofBinary32 s.useCase.columnGap),
      ("row_gap", ofBinary32 s.useCase.rowGap)]),
    ("routing", .object [("parallel_spacing", ofBinary32 s.routing.parallelSpacing),
      ("curve_cap", ofBinary32 s.routing.curveCap)])]

def pagesJson (s : PageSettings Float32) : Json :=
  .object [("max_width", ofBinary32 s.maxWidth), ("max_height", ofBinary32 s.maxHeight),
    ("overlap_margin", ofBinary32 s.overlapMargin), ("padding", ofBinary32 s.padding),
    ("strategy", .text s.strategy.name), ("pixels_per_message", ofBinary32 s.pixelsPerMessage),
    ("band_tolerance", ofBinary32 s.bandTolerance)]

def toJson (s : Settings Float32) : Json :=
  .object [("layout", layoutJson s.layout), ("pagination", pagesJson s.pages)]

end Drafting.Settings
