import Flowgraph.Json.Basic

/-!
# Issues

An issue is one finding about a graph or a run: how bad it is, what it is
attached to, why it was raised, and as much about its place as is known.
-/

namespace Flowgraph

/-- How bad an issue is. Only errors keep a graph from being run. -/
inductive Severity where
  | error
  | warning
  | info
  deriving DecidableEq

namespace Severity

/-- All severities. -/
def all : List Severity := [error, warning, info]

/-- The name of a severity. -/
def name : Severity → String
  | error => "error"
  | warning => "warning"
  | info => "info"

end Severity

/-- What an issue is attached to. -/
inductive IssueKind where
  | field
  | edge
  | graph
  | runtime
  deriving DecidableEq

namespace IssueKind

/-- All kinds of issues. -/
def all : List IssueKind := [field, edge, graph, runtime]

/-- The name of a kind. -/
def name : IssueKind → String
  | field => "field"
  | edge => "edge"
  | graph => "graph"
  | runtime => "runtime"

end IssueKind

/-- Why an issue was raised. -/
inductive IssueCode where
  | missingRequiredField
  | invalidField
  | missingRequiredInput
  | duplicateNodeId
  | selfLoop
  | danglingEdge
  | unknownPort
  | typeMismatch
  | duplicateEdge
  | tooManyConnections
  | noStartNode
  | cycle
  | unreachableNode
  | nodeFailed
  deriving DecidableEq

namespace IssueCode

/-- All codes. -/
def all : List IssueCode :=
  [missingRequiredField, invalidField, missingRequiredInput, duplicateNodeId,
   selfLoop, danglingEdge, unknownPort, typeMismatch, duplicateEdge,
   tooManyConnections, noStartNode, cycle, unreachableNode, nodeFailed]

/-- The name of a code. -/
def name : IssueCode → String
  | missingRequiredField => "missing_required_field"
  | invalidField => "invalid_field"
  | missingRequiredInput => "missing_required_input"
  | duplicateNodeId => "duplicate_node_id"
  | selfLoop => "self_loop"
  | danglingEdge => "dangling_edge"
  | unknownPort => "unknown_port"
  | typeMismatch => "type_mismatch"
  | duplicateEdge => "duplicate_edge"
  | tooManyConnections => "too_many_connections"
  | noStartNode => "no_start_node"
  | cycle => "cycle"
  | unreachableNode => "unreachable_node"
  | nodeFailed => "node_failed"

/-- Whether a code says that something required is missing. -/
def isMissingRequired : IssueCode → Bool
  | missingRequiredField | missingRequiredInput => true
  | _ => false

end IssueCode

/-- One finding. A random id that it is given when it is raised is left out: no
other part of it or of a report depends on that id, and two findings are the
same or not whatever their ids are. -/
structure Issue where
  severity : Severity
  kind : IssueKind
  code : IssueCode
  message : String
  nodeId : Option String := none
  edgeId : Option String := none
  fieldPath : Option String := none
  details : Option Json := none
  fixHint : Option String := none
  deriving DecidableEq

namespace Issue

/-- An error without a place. -/
def error (kind : IssueKind) (code : IssueCode) (message : String) : Issue :=
  { severity := .error, kind, code, message }

/-- A warning without a place. -/
def warning (kind : IssueKind) (code : IssueCode) (message : String) : Issue :=
  { severity := .warning, kind, code, message }

/-- A remark without a place. -/
def info (kind : IssueKind) (code : IssueCode) (message : String) : Issue :=
  { severity := .info, kind, code, message }

/-- Whether an issue is an error. -/
def isError (issue : Issue) : Bool := issue.severity == .error

/-- Whether an issue is a warning. -/
def isWarning (issue : Issue) : Bool := issue.severity == .warning

/-- Whether two issues say the same about the same place. Numbers in their
details are compared by value. -/
def same (a b : Issue) : Bool :=
  let details := match a.details, b.details with
    | some x, some y => x.same y
    | none, none => true
    | _, _ => false
  details && { a with details := none } == { b with details := none }

/-- The place of an issue: a node with or without a field, else an edge. -/
def place (issue : Issue) : String :=
  match issue.nodeId, issue.edgeId, issue.fieldPath with
  | some node, _, some field => s!" {node}.{field}:"
  | some node, _, none => s!" {node}:"
  | none, some edge, _ => s!" edge {edge}:"
  | none, none, _ => ""

/-- An issue as one line. -/
def display (issue : Issue) : String :=
  s!"[{issue.severity.name}]{issue.place} {issue.message}"

end Issue

end Flowgraph
