import Flowgraph.Table

/-!
# Statuses

A run has a status as a whole, and each of its nodes has one.
-/

namespace Flowgraph

/-- The status of a run. -/
inductive RunStatus where
  | running
  | succeeded
  | failed
  | cancelled
  deriving DecidableEq

namespace RunStatus

/-- All statuses of a run. -/
def all : List RunStatus := [running, succeeded, failed, cancelled]

/-- The name of a status. -/
def name : RunStatus → String
  | running => "running"
  | succeeded => "succeeded"
  | failed => "failed"
  | cancelled => "cancelled"

end RunStatus

/-- The status of a node within a run. -/
inductive NodeStatus where
  | idle
  | pending
  | running
  | succeeded
  | failed
  | skipped
  | cancelled
  deriving DecidableEq

namespace NodeStatus

/-- All statuses of a node. -/
def all : List NodeStatus :=
  [idle, pending, running, succeeded, failed, skipped, cancelled]

/-- The name of a status. -/
def name : NodeStatus → String
  | idle => "idle"
  | pending => "pending"
  | running => "running"
  | succeeded => "succeeded"
  | failed => "failed"
  | skipped => "skipped"
  | cancelled => "cancelled"

/-- A terminal status is the last one of its node. -/
def isTerminal : NodeStatus → Bool
  | succeeded | failed | skipped | cancelled => true
  | idle | pending | running => false

end NodeStatus

/-- The statuses of nodes by their ids. -/
abbrev Statuses := Table NodeStatus

end Flowgraph
