import Drafting.Scalar

namespace Drafting

structure HierarchySettings (α : Type) where
  horizontalSpacing : α
  verticalSpacing : α
  nodeMargin : α
  layerMargin : α

structure FlowSettings (α : Type) where
  nodeSeparation : α
  rankSeparation : α
  minX : α

structure MindmapSettings (α : Type) where
  unitHeight : α
  horizontalStep : α

structure SequenceSettings (α : Type) where
  actorSpacing : α
  headerHeight : α
  pixelsPerMessage : α

structure UseCaseSettings (α : Type) where
  columnGap : α
  rowGap : α

structure RoutingSettings (α : Type) where
  parallelSpacing : α
  curveCap : α

structure LayoutSettings (α : Type) where
  padding : α
  hierarchy : HierarchySettings α
  flow : FlowSettings α
  mindmap : MindmapSettings α
  sequence : SequenceSettings α
  useCase : UseCaseSettings α
  routing : RoutingSettings α

inductive BreakStrategy where
  | layers
  | clusters
  | grid
deriving DecidableEq

namespace BreakStrategy

def all : List BreakStrategy := [layers, clusters, grid]

def name : BreakStrategy → String
  | layers => "layers"
  | clusters => "clusters"
  | grid => "grid"

def ofName? (s : String) : Option BreakStrategy := all.find? (·.name == s)

def tokens : BreakStrategy → List String
  | layers => ["layers", "layer"]
  | clusters => ["clusters", "cluster"]
  | grid => ["grid"]

def ofToken? (s : String) : Option BreakStrategy := all.find? (·.tokens.contains s.toLower)

end BreakStrategy

structure PageSettings (α : Type) where
  maxWidth : α
  maxHeight : α
  overlapMargin : α
  padding : α
  strategy : BreakStrategy
  pixelsPerMessage : α
  bandTolerance : α

structure Settings (α : Type) where
  layout : LayoutSettings α
  pages : PageSettings α

variable {α : Type} [Scalar α]

def LayoutSettings.standard : LayoutSettings α where
  padding := 40
  hierarchy := ⟨180, 120, 50, 30⟩
  flow := ⟨60, 80, 50⟩
  mindmap := ⟨56, 200⟩
  sequence := ⟨160, 80, 50⟩
  useCase := ⟨200, 30⟩
  routing := ⟨16, 60⟩

def PageSettings.standard : PageSettings α where
  maxWidth := 1200
  maxHeight := 900
  overlapMargin := 0
  padding := 40
  strategy := .layers
  pixelsPerMessage := 50
  bandTolerance := 30

def Settings.standard : Settings α := ⟨.standard, .standard⟩

end Drafting
