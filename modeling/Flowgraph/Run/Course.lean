import Flowgraph.Issue
import Flowgraph.Plan.Basic
import Flowgraph.Run.Event
import Flowgraph.Run.Work

/-!
# The course of a run

A run takes the nodes of a plan in order, one at a time. Its course is written
down step by step: the events that are told, the work that is done, and the
moments at which the run looks whether it has been cancelled. Whether it has
been depends on what went before, so a cancellation is a yes or no for every
course up to a look.

A disabled node is skipped, an enabled one is running until its work is done.
The first failure ends the run, and so does a look that sees the cancellation:
before a disabled node, before the work of an enabled one, and behind it. All
nodes that have not had their turn are then skipped.
-/

namespace Flowgraph

/-- One step of a run. -/
inductive RunStep where
  | event (event : Event)
  /-- The run looked whether it is cancelled, and saw the answer. -/
  | look (cancelled : Bool)
  /-- The work of a node was done. -/
  | work (nodeId : String)
  deriving DecidableEq

/-- Whether a run is cancelled when it looks, after the given steps. -/
abbrev Cancellation := List RunStep → Bool

/-- Nothing ever cancels the run. -/
def Cancellation.never : Cancellation := fun _ => false

/-- A run under way: its steps so far, the statuses of its nodes, and what went
wrong. -/
structure Progress where
  runId : String
  steps : List RunStep
  statuses : Statuses
  issues : List Issue := []

namespace Progress

/-- The begin of a run: every node is pending. -/
def start (runId : String) (ids : List String) : Progress where
  runId
  steps := [.event (.runStarted runId ids)]
  statuses := .ofList (ids.map fun id => (id, .pending))

/-- Gives a node a status. -/
def mark (p : Progress) (node : Node) (status : NodeStatus) : Progress :=
  { p with
    statuses := p.statuses.insert node.id status
    steps := p.steps ++ [.event (.nodeStatusChanged p.runId node.id status)] }

/-- Looks whether the run is cancelled. -/
def look (p : Progress) (cancelled : Cancellation) : Bool × Progress :=
  let answer := cancelled p.steps
  (answer, { p with steps := p.steps ++ [.look answer] })

/-- Does the work of a node. -/
def workOn (p : Progress) (node : Node) : Progress :=
  { p with steps := p.steps ++ [.work node.id] }

/-- Tells that the work of a node failed. -/
def fail (p : Progress) (node : Node) (fault : WorkFault) : Progress :=
  let p := p.mark node .failed
  { p with
    steps := p.steps ++ [.event (.nodeFailed p.runId node.id fault.message)]
    issues := p.issues ++ [{ Issue.error .runtime .nodeFailed fault.message with
      nodeId := some node.id }] }

/-- Skips nodes. -/
def skipAll (p : Progress) (nodes : List Node) : Progress :=
  nodes.foldl (fun p node => p.mark node .skipped) p

end Progress

/-- Where a run stopped: how it went, how it ended, and the nodes whose turn
never came. -/
structure Stop where
  progress : Progress
  status : RunStatus
  rest : List Node

/-- Takes nodes one after another. -/
def runNodes (work : Work) (cancelled : Cancellation) :
    List Node → Progress → Stop
  | [], p => ⟨p, .succeeded, []⟩
  | node :: rest, p =>
    if !node.enabled then
      let (stop, p) := p.look cancelled
      if stop then ⟨p, .cancelled, node :: rest⟩
      else runNodes work cancelled rest (p.mark node .skipped)
    else
      let (stop, p) := (p.mark node .running).look cancelled
      if stop then ⟨p.mark node .cancelled, .cancelled, rest⟩
      else
        let p := p.workOn node
        match work node with
        | .error fault => ⟨p.fail node fault, .failed, rest⟩
        | .ok () =>
          let (stop, p) := p.look cancelled
          if stop then ⟨p.mark node .cancelled, .cancelled, rest⟩
          else runNodes work cancelled rest (p.mark node .succeeded)

/-- A run up to its end: its steps but for the last event, its statuses, its
issues, and its own status. -/
structure Course where
  steps : List RunStep
  statuses : Statuses
  issues : List Issue
  status : RunStatus

/-- The course of a run of nodes. -/
def Course.of (runId : String) (nodes : List Node) (work : Work)
    (cancelled : Cancellation) : Course :=
  let stop := runNodes work cancelled nodes (.start runId (nodes.map (·.id)))
  let p := stop.progress.skipAll stop.rest
  ⟨p.steps, p.statuses, p.issues, stop.status⟩

end Flowgraph
