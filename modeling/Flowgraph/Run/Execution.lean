import Flowgraph.Run.Status
import Flowgraph.Time.Moment

/-!
# Executions

An execution is the record of one run. It is made when the run begins and
completed once, when the run ends.
-/

namespace Flowgraph

/-- The record of a run. -/
structure Execution where
  id : String
  status : RunStatus
  startedAt : Moment
  finishedAt : Option Moment := none
  durationMs : Option UInt64 := none
  deriving DecidableEq

namespace Execution

/-- The record of a run that begins. -/
def start (id : String) (now : Moment) : Execution :=
  { id, status := .running, startedAt := now }

/-- The record of the run when it has ended. -/
def finish (execution : Execution) (status : RunStatus) (now : Moment)
    (durationMs : UInt64) : Execution :=
  { execution with
    status, finishedAt := some now, durationMs := some durationMs }

/-- Whether the run has ended. -/
def isFinished (execution : Execution) : Bool := execution.finishedAt.isSome

end Execution

end Flowgraph
