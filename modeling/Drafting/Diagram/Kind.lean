namespace Drafting

inductive DiagramKind where
  | classes
  | sequence
  | flow
  | useCase
  | mindmap
  | generic
deriving DecidableEq

namespace DiagramKind

def all : List DiagramKind := [classes, sequence, flow, useCase, mindmap, generic]

def name : DiagramKind → String
  | classes => "class"
  | sequence => "sequence"
  | flow => "flow"
  | useCase => "usecase"
  | mindmap => "mindmap"
  | generic => "generic"

def ofName? (s : String) : Option DiagramKind := all.find? (·.name == s)

def tokens : DiagramKind → List String
  | classes => ["class", "classdiagram"]
  | sequence => ["sequence", "sequencediagram"]
  | flow => ["flow", "flowchart"]
  | useCase => ["usecase", "usecasediagram", "use-case"]
  | mindmap => ["mindmap", "mind-map"]
  | generic => ["generic", "graph"]

def ofToken? (s : String) : Option DiagramKind :=
  all.find? fun kind => kind.tokens.contains s.toLower

theorem ofName?_name (kind : DiagramKind) : ofName? kind.name = some kind := by
  cases kind <;> decide

end DiagramKind

inductive NodeKind where
  | classBox
  | actor
  | start
  | finish
  | process
  | decision
  | input
  | output
  | useCase
  | root
  | branch
  | leaf
  | generic
deriving DecidableEq

namespace NodeKind

def all : List NodeKind :=
  [classBox, actor, start, finish, process, decision, input, output, useCase, root, branch, leaf,
    generic]

def name : NodeKind → String
  | classBox => "class"
  | actor => "actor"
  | start => "start"
  | finish => "end"
  | process => "process"
  | decision => "decision"
  | input => "input"
  | output => "output"
  | useCase => "usecase"
  | root => "root"
  | branch => "branch"
  | leaf => "leaf"
  | generic => "generic"

def ofName? (s : String) : Option NodeKind := all.find? (·.name == s)

/-- The shapes of mind maps are held by their centre, all others by their top left corner. -/
def isCentered : NodeKind → Bool
  | root | branch | leaf => true
  | _ => false

def isRootLike : NodeKind → Bool
  | start | root | actor => true
  | _ => false

def isTerminal : NodeKind → Bool
  | finish | leaf => true
  | _ => false

def isFlowShape : NodeKind → Bool
  | start | finish | process | decision | input | output => true
  | _ => false

theorem ofName?_name (kind : NodeKind) : ofName? kind.name = some kind := by
  cases kind <;> decide

end NodeKind

inductive EdgeKind where
  | association
  | inheritance
  | sync
  | async
  | flow
  | extension
  | inclusion
  | branch
deriving DecidableEq

namespace EdgeKind

def all : List EdgeKind :=
  [association, inheritance, sync, async, flow, extension, inclusion, branch]

def name : EdgeKind → String
  | association => "association"
  | inheritance => "inheritance"
  | sync => "sync"
  | async => "async"
  | flow => "flow"
  | extension => "extends"
  | inclusion => "includes"
  | branch => "branch"

def ofName? (s : String) : Option EdgeKind := all.find? (·.name == s)

theorem ofName?_name (kind : EdgeKind) : ofName? kind.name = some kind := by
  cases kind <;> decide

end EdgeKind

end Drafting
