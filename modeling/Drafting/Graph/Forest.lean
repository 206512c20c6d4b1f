import Drafting.Graph

namespace Drafting

inductive Forest where
  | nil
  | cons (root : Nat) (children siblings : Forest)
deriving DecidableEq

namespace Forest

def roots : Forest → List Nat
  | nil => []
  | cons i _ siblings => i :: siblings.roots

def nodes : Forest → List Nat
  | nil => []
  | cons i children siblings => i :: (children.nodes ++ siblings.nodes)

/-- The weight of a row of trees. Each weighs as much as the row of its children, and one if it
has none. -/
def weight : Forest → Nat
  | nil => 0
  | cons _ children siblings => max 1 children.weight + siblings.weight

def take : Nat → Forest → Forest
  | 0, _ => nil
  | _, nil => nil
  | n + 1, cons i children siblings => cons i children (siblings.take n)

def drop : Nat → Forest → Forest
  | 0, f => f
  | _, nil => nil
  | n + 1, cons _ _ siblings => siblings.drop n

def ofChildren : List Nat → List Forest → Forest
  | i :: is, f :: fs => cons i f (ofChildren is fs)
  | _, _ => nil

end Forest

namespace Graph

def claims (g : Graph) : List Nat → List Nat → List (List Nat)
  | _, [] => []
  | waiting, i :: frontier =>
      let children := g.reached waiting [i]
      children :: claims g (without waiting children) frontier

theorem mem_of_mem_claims {g : Graph} {waiting frontier children : List Nat} {i : Nat}
    (h : children ∈ g.claims waiting frontier) (hi : i ∈ children) : i ∈ waiting := by
  induction frontier generalizing waiting with
  | nil => simp [claims] at h
  | cons j frontier ih =>
      rcases List.mem_cons.1 h with rfl | h
      · exact mem_of_mem_reached hi
      · exact (List.mem_filter.1 (ih h)).1

def runs {β : Type} : List (List Nat) → List β → List (List β)
  | [], _ => []
  | c :: cs, fs => fs.take c.length :: runs cs (fs.drop c.length)

/-- For each node of the frontier the forest below it, in the search that goes through the whole
frontier before it goes further. -/
def grow (g : Graph) (waiting frontier : List Nat) : List Forest :=
  let claims := g.claims waiting frontier
  let next := claims.flatten
  if _ : next = [] then frontier.map fun _ => .nil
  else
    let below := grow g (without waiting next) next
    List.zipWith Forest.ofChildren claims (runs claims below)
termination_by waiting.length
decreasing_by
  obtain ⟨i, hi⟩ := List.exists_mem_of_ne_nil _ (by assumption)
  obtain ⟨children, hc, hm⟩ := List.mem_flatten.1 hi
  exact length_without_lt (mem_of_mem_claims hc hm) hi

def treeFrom (g : Graph) (waiting : List Nat) (seed : Nat) : Forest :=
  .cons seed ((g.grow (without waiting [seed]) [seed]).headD .nil) .nil

/-- The trees that searches from the seeds span, one after the other; a seed that an earlier
search met starts none. -/
def spanFrom (g : Graph) : List Nat → List Nat → List Forest
  | _, [] => []
  | waiting, seed :: seeds =>
      if waiting.contains seed then
        let tree := g.treeFrom waiting seed
        tree :: spanFrom g (without waiting tree.nodes) seeds
      else spanFrom g waiting seeds

end Graph

end Drafting
