import Flowgraph.Run.Status

/-!
# Events

A run tells what happens in it by a stream of events. Each of them names the
run it belongs to.
-/

namespace Flowgraph

/-- Something that happened in a run. -/
inductive Event where
  /-- The run has begun; every one of the nodes is pending. -/
  | runStarted (runId : String) (nodes : List String)
  /-- A node has a new status. -/
  | nodeStatusChanged (runId nodeId : String) (status : NodeStatus)
  /-- The work of a node has failed. -/
  | nodeFailed (runId nodeId error : String)
  /-- The run has ended. -/
  | runFinished (runId : String) (status : RunStatus) (durationMs : UInt64)
  deriving DecidableEq

/-- The run that an event belongs to. -/
def Event.runId : Event → String
  | runStarted id .. => id
  | nodeStatusChanged id .. => id
  | nodeFailed id .. => id
  | runFinished id .. => id

end Flowgraph
