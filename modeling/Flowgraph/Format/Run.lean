import Flowgraph.Format.Document
import Flowgraph.Run.Event
import Flowgraph.Run.Execution

/-!
# The written form of run records

An event is an object whose only member names its kind; the members of the
events keep words apart with underscores. A record of a run is an object like
those of a graph.
-/

namespace Flowgraph

namespace RunStatus

/-- The status that stands at a place of a text. -/
def read : Reader RunStatus := .choice (.named name all)

/-- The written form of a status. -/
def toJson (status : RunStatus) : Json := .string status.name

end RunStatus

namespace NodeStatus

/-- The status that stands at a place of a text. -/
def read : Reader NodeStatus := .choice (.named name all)

/-- The written form of a status. -/
def toJson (status : NodeStatus) : Json := .string status.name

end NodeStatus

/-- Statuses as an object with the ids as names. -/
def Statuses.toJson (statuses : Statuses) : Json :=
  .object (statuses.entries.map fun (id, status) => (id, status.toJson))

namespace Event

/-- The kinds of events. -/
inductive Kind where
  | runStarted
  | nodeStatusChanged
  | nodeFailed
  | runFinished
  deriving DecidableEq

namespace Kind

/-- All kinds of events. -/
def all : List Kind := [runStarted, nodeStatusChanged, nodeFailed, runFinished]

/-- The name of a kind. -/
def name : Kind → String
  | runStarted => "RunStarted"
  | nodeStatusChanged => "NodeStatusChanged"
  | nodeFailed => "NodeFailed"
  | runFinished => "RunFinished"

/-- How the content of a kind is spoken of. -/
def wanted (kind : Kind) : String :=
  "struct variant ExecutionEvent::" ++ kind.name

end Kind

/-- The members an event may have. -/
structure Parts where
  runId : String := ""
  nodes : List String := []
  nodeId : String := ""
  nodeStatus : NodeStatus := .idle
  error : String := ""
  runStatus : RunStatus := .running
  durationMs : UInt64 := 0

/-- The field of the run's id. -/
def runIdField : Field Tree Parts :=
  .of "execution_id" .required Reader.string fun v p => { p with runId := v }

/-- The field of the node's id. -/
def nodeIdField : Field Tree Parts :=
  .of "node_id" .required Reader.string fun v p => { p with nodeId := v }

/-- The fields of a kind. -/
def Kind.fields : Kind → List (Field Tree Parts)
  | runStarted =>
    [runIdField,
     .of "nodes" .required (Reader.list Reader.string)
      fun v p => { p with nodes := v }]
  | nodeStatusChanged =>
    [runIdField, nodeIdField,
     .of "status" .required NodeStatus.read
      fun v p => { p with nodeStatus := v }]
  | nodeFailed =>
    [runIdField, nodeIdField,
     .of "error" .required Reader.string fun v p => { p with error := v }]
  | runFinished =>
    [runIdField,
     .of "status" .required RunStatus.read fun v p => { p with runStatus := v },
     .of "duration_ms" .required (Reader.unsigned 64)
      fun v p => { p with durationMs := ⟨v⟩ }]

/-- The event of a kind with its members. -/
def ofParts (parts : Parts) : Kind → Event
  | .runStarted => .runStarted parts.runId parts.nodes
  | .nodeStatusChanged =>
    .nodeStatusChanged parts.runId parts.nodeId parts.nodeStatus
  | .nodeFailed => .nodeFailed parts.runId parts.nodeId parts.error
  | .runFinished => .runFinished parts.runId parts.runStatus parts.durationMs

/-- The event that stands at a place of a text. -/
def read : Reader Event :=
  .variant (.named Kind.name Kind.all)
    (fun _ => .error (.mismatch (.wrongType .bareVariant "struct variant")))
    fun kind tree => do
      let parts ← Reader.record kind.wanted kind.fields {} tree
      return ofParts parts kind

/-- The written form of an event. -/
def toJson : Event → Json
  | runStarted id nodes =>
    .object [("RunStarted", .object
      [("execution_id", .string id), ("nodes", .array (nodes.map .string))])]
  | nodeStatusChanged id node status =>
    .object [("NodeStatusChanged", .object
      [("execution_id", .string id), ("node_id", .string node),
       ("status", status.toJson)])]
  | nodeFailed id node error =>
    .object [("NodeFailed", .object
      [("execution_id", .string id), ("node_id", .string node),
       ("error", .string error)])]
  | runFinished id status durationMs =>
    .object [("RunFinished", .object
      [("execution_id", .string id), ("status", status.toJson),
       ("duration_ms", .nat durationMs.toNat)])]

end Event

namespace Execution

/-- The fields of the record of a run. -/
def fields : List (Field Tree Execution) :=
  [.of "id" .required Reader.string fun v e => { e with id := v },
   .of "status" .required RunStatus.read fun v e => { e with status := v },
   .of "startedAt" .required Reader.moment fun v e => { e with startedAt := v },
   .of "finishedAt" .optional (Reader.optional Reader.moment)
    fun v e => { e with finishedAt := v },
   .of "durationMs" .optional (Reader.optional (Reader.unsigned 64))
    fun v e => { e with durationMs := v.map UInt64.ofBitVec }]

/-- The record of a run that stands at a place of a text. -/
def read : Reader Execution :=
  .record "struct Execution" fields (.start "" .start)

/-- The written form of the record of a run. -/
def toJson (execution : Execution) : Json :=
  .object (
    ("id", .string execution.id) ::
    ("status", execution.status.toJson) ::
    ("startedAt", execution.startedAt.toJson) ::
    Json.member? "finishedAt" Moment.toJson execution.finishedAt ++
    Json.member? "durationMs" (fun n => .nat n.toNat) execution.durationMs)

end Execution

end Flowgraph
