import Flowgraph.Plan.Wiring

/-!
# The order of a wiring

Vertices are put in order one at a time. A vertex is ready when everything that
feeds it has been taken; the ready ones wait in a queue, first in, first out,
which the vertices that nothing feeds enter first. For each vertex the number of
vertices is kept that feed it and have not been taken; when the last of them is
taken the vertex becomes ready.

On a cycle no vertex ever becomes ready, nor behind one, so the order of a
wiring with a cycle is shorter than the list of its vertices.
-/

namespace Flowgraph

namespace Wiring

variable {α : Type} [DecidableEq α]

/-- A state on the way to an order: how many vertices each vertex still waits
for, the ready ones, and those already taken. -/
structure Sorting (α : Type) where
  waiting : List (α × Nat)
  queue : List α
  order : List α

namespace Sorting

/-- How many vertices a vertex waits for. -/
def count (s : Sorting α) (v : α) : Nat :=
  match s.waiting.find? fun entry => entry.1 = v with
  | some (_, n) => n
  | none => 0

/-- One of the vertices that `v` waits for has been taken. -/
def release (s : Sorting α) (v : α) : Sorting α :=
  let waiting := s.waiting.map fun (u, n) => (u, if u = v then n - 1 else n)
  let lowered := { s with waiting }
  if lowered.count v = 0 then { lowered with queue := s.queue ++ [v] }
  else lowered

end Sorting

variable (w : Wiring α)

/-- The state in which no vertex has been taken. -/
def unsorted : Sorting α :=
  ⟨w.vertices.map fun v => (v, w.inDegree v), w.starts, []⟩

/-- Takes the first ready vertex, if there is one. -/
def sortStep (s : Sorting α) : Option (Sorting α) :=
  match s.queue with
  | [] => none
  | v :: queue =>
    let taken := { s with queue, order := s.order ++ [v] }
    some ((w.successors v).foldl Sorting.release taken)

/-- Takes ready vertices, at most `count` of them. -/
def sortUpTo : (count : Nat) → Sorting α → Sorting α
  | 0, s => s
  | count + 1, s =>
    match w.sortStep s with
    | none => s
    | some next => sortUpTo count next

/-- The state in which no vertex is ready any more. Each vertex is ready at most
once, so their number bounds the steps. -/
def sorted : Sorting α := w.sortUpTo w.vertices.length w.unsorted

/-- The vertices in an order in which each comes behind all that feed it. -/
def order : List α := w.sorted.order

/-- The vertices without a place in the order. -/
def unordered : List α :=
  let order := w.order
  w.vertices.filter fun v => v ∉ order

/-- Whether there is a cycle. -/
def hasCycle : Bool := w.order.length < w.vertices.length

end Wiring

end Flowgraph
