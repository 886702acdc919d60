import Flowgraph.Report
import Flowgraph.Run.Course
import Flowgraph.Run.Execution

/-!
# Runners

A runner runs plans one after another. It remembers the record of the last run,
and everything that is told and done on its behalf is written down with it. A
fault does not take back what was done before it, so it matters that all nodes
of a plan are looked up before its run begins.
-/

namespace Flowgraph

/-- Why a run cannot begin. -/
inductive RunFault where
  /-- The graph has errors, so there is no plan. -/
  | notRunnable (errors : Nat)
  /-- The plan names a node that is not there. -/
  | unknownNode (nodeId : String)
  deriving DecidableEq

/-- The fault in words. -/
def RunFault.message : RunFault → String
  | notRunnable errors =>
    s!"graph is not runnable: {errors} validation error(s)"
  | unknownNode nodeId => s!"plan references unknown node '{nodeId}'"

/-- What a run is given from outside: its id, and the times of its begin and its
end. -/
structure Stamp where
  id : String
  startedAt : Moment
  finishedAt : Moment
  durationMs : UInt64

/-- What a finished run leaves behind. -/
structure Outcome where
  execution : Execution
  statuses : Statuses
  issues : List Issue
  steps : List RunStep

namespace Outcome

/-- The events of a run, in order. -/
def events (outcome : Outcome) : List Event :=
  outcome.steps.filterMap fun
    | .event e => some e
    | _ => none

/-- The ids of the nodes whose work was done, in order. -/
def performed (outcome : Outcome) : List String :=
  outcome.steps.filterMap fun
    | .work id => some id
    | _ => none

/-- The status of a node. -/
def statusOf (outcome : Outcome) (id : String) : Option NodeStatus :=
  outcome.statuses.find? id

end Outcome

/-- The nodes of ids, or the first id without a node. -/
def resolve (nodes : List Node) (ids : List String) :
    Except RunFault (List Node) :=
  ids.mapM fun id =>
    match findNode? nodes id with
    | some node => .ok node
    | none => .error (.unknownNode id)

/-- The outcome of a course. -/
def Course.outcome (course : Course) (stamp : Stamp) : Outcome where
  execution := (Execution.start stamp.id stamp.startedAt).finish course.status
    stamp.finishedAt stamp.durationMs
  statuses := course.statuses
  issues := course.issues
  steps := course.steps ++
    [.event (.runFinished stamp.id course.status stamp.durationMs)]

/-- A runner: the record of its last run, and all that it has told and done. -/
structure Runner where
  last : Option Execution := none
  steps : List RunStep := []

/-- What a runner does until it has a result or meets a fault. -/
abbrev Running := ExceptT RunFault (StateM Runner)

/-- What comes of it for a runner, and the runner afterwards. -/
def Running.on {α : Type} (running : Running α) (runner : Runner) :
    Except RunFault α × Runner :=
  Id.run (running.run.run runner)

namespace Runner

/-- Writes down what is told and done. -/
def note (steps : List RunStep) : Running Unit :=
  modify fun runner => { runner with steps := runner.steps ++ steps }

/-- Remembers the record of a run. -/
def remember (execution : Execution) : Running Unit :=
  modify fun runner => { runner with last := some execution }

/-- Runs a plan with nodes. -/
def run (stamp : Stamp) (nodes : List Node) (plan : Plan) (work : Work)
    (cancelled : Cancellation) : Running Outcome := do
  let order ← resolve nodes plan.nodesInOrder
  let outcome := (Course.of stamp.id order work cancelled).outcome stamp
  note outcome.steps
  remember outcome.execution
  return outcome

/-- Runs the plan of a report with the nodes of a graph. -/
def runReport (stamp : Stamp) (graph : Graph) (report : Report) (work : Work)
    (cancelled : Cancellation) : Running Outcome :=
  match report.plan with
  | some plan => run stamp graph.nodes plan work cancelled
  | none => throw (.notRunnable report.errors)

end Runner

/-- What comes of a plan for a runner that has not run anything yet. -/
def runPlan (stamp : Stamp) (nodes : List Node) (plan : Plan) (work : Work)
    (cancelled : Cancellation) : Except RunFault Outcome :=
  ((Runner.run stamp nodes plan work cancelled).on {}).1

/-- What comes of a report for a runner that has not run anything yet. -/
def runReport (stamp : Stamp) (graph : Graph) (report : Report) (work : Work)
    (cancelled : Cancellation) : Except RunFault Outcome :=
  ((Runner.runReport stamp graph report work cancelled).on {}).1

/-- What is to be run: a plan with nodes, or the plan of a report with the
nodes of a graph. -/
inductive RunTarget where
  | plan (nodes : List Node) (plan : Plan)
  | report (graph : Graph) (report : Report)

/-- One call of a runner. -/
structure RunCall where
  stamp : Stamp
  target : RunTarget
  work : Work
  cancelled : Cancellation

/-- What a runner does for a call. -/
def RunCall.running (call : RunCall) : Running Outcome :=
  match call.target with
  | .plan nodes plan =>
    Runner.run call.stamp nodes plan call.work call.cancelled
  | .report graph report =>
    Runner.runReport call.stamp graph report call.work call.cancelled

/-- Answers a call. -/
def Runner.answer (runner : Runner) (call : RunCall) :
    Except RunFault Outcome × Runner :=
  call.running.on runner

end Flowgraph
