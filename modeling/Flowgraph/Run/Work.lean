import Flowgraph.Graph.Basic

/-!
# Work

What a node does when its turn comes is a piece of work that succeeds or fails.
The simulated work does nothing but take its time, and fails for given nodes.
-/

namespace Flowgraph

/-- Why the work of a node failed. -/
inductive WorkFault where
  | simulated (nodeId : String)
  | failed (nodeId message : String)
  deriving DecidableEq

/-- The fault in words. -/
def WorkFault.message : WorkFault → String
  | simulated nodeId => s!"simulated failure in node '{nodeId}'"
  | failed nodeId message => s!"node '{nodeId}' failed: {message}"

/-- The outcome of every node's work. -/
abbrev Work := Node → Except WorkFault Unit

/-- Settings of a simulated run: how long a node takes, in milliseconds, and the
ids of the nodes that fail. -/
structure Simulation where
  delayMs : Nat := 250
  failNodes : List String := []

/-- The simulated work. -/
def Simulation.work (simulation : Simulation) : Work := fun node =>
  if node.id ∈ simulation.failNodes then .error (.simulated node.id) else .ok ()

end Flowgraph
