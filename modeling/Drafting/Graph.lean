import Drafting.Diagram.Link

namespace Drafting

structure Graph where
  size : Nat
  arcs : List (Nat × Nat)
deriving DecidableEq

namespace Graph

def nodes (g : Graph) : List Nat := List.range g.size

def successors (g : Graph) (i : Nat) : List Nat :=
  g.arcs.filterMap fun a => if a.1 = i then some a.2 else none

def neighbours (g : Graph) (i : Nat) : List Nat :=
  g.arcs.flatMap fun a => (if a.1 = i then [a.2] else []) ++ (if a.2 = i then [a.1] else [])

def isInitial (g : Graph) (i : Nat) : Bool := g.arcs.all fun a => a.2 != i

def without (waiting taken : List Nat) : List Nat := waiting.filter fun i => !taken.contains i

def reached (g : Graph) (waiting frontier : List Nat) : List Nat :=
  ((frontier.flatMap g.successors).filter waiting.contains).eraseDups

theorem length_without_lt {waiting taken : List Nat} {i : Nat} (hi : i ∈ waiting)
    (ht : i ∈ taken) : (without waiting taken).length < waiting.length := by
  refine List.length_filter_lt_length_iff_exists.2 ⟨i, hi, ?_⟩
  simp [ht]

theorem mem_of_mem_reached {g : Graph} {waiting frontier : List Nat} {i : Nat}
    (h : i ∈ g.reached waiting frontier) : i ∈ waiting := by
  simp only [reached, List.mem_eraseDups, List.mem_filter] at h
  simpa using h.2

/-- The frontier and the waves behind it, each the waiting nodes one arc further on. -/
def waves (g : Graph) (waiting frontier : List Nat) : List (List Nat) :=
  let next := g.reached waiting frontier
  if _ : next = [] then if frontier.isEmpty then [] else [frontier]
  else frontier :: waves g (without waiting next) next
termination_by waiting.length
decreasing_by
  obtain ⟨i, hi⟩ := List.exists_mem_of_ne_nil _ (by assumption)
  exact length_without_lt (mem_of_mem_reached hi) hi

end Graph

def Diagram.graph {α : Type} (d : Diagram α) : Graph :=
  ⟨d.nodes.length, d.links.filterMap fun l =>
    if l.source.index = l.target.index then none else some (l.source.index, l.target.index)⟩

end Drafting
