import Flowgraph.Plan.Wiring

/-!
# What can be reached

From the vertices that nothing feeds one walks forward along the links. A vertex
is marked as reached when it enters the queue, and enters it only then.
-/

namespace Flowgraph

namespace Wiring

variable {α : Type} [DecidableEq α]

/-- A state of the walk: the vertices reached, and those of them whose links
have not been followed. -/
structure Walk (α : Type) where
  reached : List α
  queue : List α

/-- Reaches a vertex. -/
def Walk.visit (s : Walk α) (v : α) : Walk α :=
  if v ∈ s.reached then s else ⟨s.reached ++ [v], s.queue ++ [v]⟩

variable (w : Wiring α)

/-- Follows the links of the first vertex in the queue, if there is one. -/
def walkStep (s : Walk α) : Option (Walk α) :=
  match s.queue with
  | [] => none
  | v :: queue => some ((w.successors v).foldl Walk.visit { s with queue })

/-- Takes vertices from the queue, at most `count` of them. -/
def walkUpTo : (count : Nat) → Walk α → Walk α
  | 0, s => s
  | count + 1, s =>
    match w.walkStep s with
    | none => s
    | some next => walkUpTo count next

/-- The vertices that can be reached. -/
def reachable : List α :=
  (w.walkUpTo w.vertices.length ⟨w.starts, w.starts⟩).reached

/-- The vertices that cannot be reached. -/
def unreachable : List α :=
  let reachable := w.reachable
  w.vertices.filter fun v => v ∉ reachable

end Wiring

end Flowgraph
