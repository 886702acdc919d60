/-!
# Wirings

A wiring is what planning sees of a graph: its vertices, and which of them feed
which. There is at most one link from one vertex to another, and links are kept
in the order in which they were first made, so everything that is derived from
a wiring has a definite order too.
-/

namespace Flowgraph

/-- Vertices and the links between them. -/
structure Wiring (α : Type) where
  vertices : List α
  links : List (α × α)

namespace Wiring

variable {α : Type} [DecidableEq α] (w : Wiring α)

/-- The vertices that a vertex feeds, in the order of the links. -/
def successors (v : α) : List α :=
  (w.links.filter fun link => link.1 = v).map (·.2)

/-- The vertices that feed a vertex. -/
def predecessors (v : α) : List α :=
  (w.links.filter fun link => link.2 = v).map (·.1)

/-- How many vertices feed a vertex. -/
def inDegree (v : α) : Nat := (w.predecessors v).length

/-- The vertices that nothing feeds. -/
def starts : List α := w.vertices.filter fun v => w.inDegree v = 0

end Wiring

end Flowgraph
