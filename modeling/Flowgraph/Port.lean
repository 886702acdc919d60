import Flowgraph.Graph.Basic

/-!
# Ports

The ports of a node follow from its kind alone. An edge may name the port it
leaves or enters; when it names none it means the default one, which not every
kind has.
-/

namespace Flowgraph

/-- What is carried from port to port. -/
inductive DataType where
  | any
  | string
  | json
  deriving DecidableEq

namespace DataType

/-- The name of a type. -/
def name : DataType → String
  | any => "any"
  | string => "string"
  | json => "json"

/-- Whether a port of one type can feed a port of the other: `any` fits
everything. -/
def compatible (a b : DataType) : Bool := a == any || b == any || a == b

end DataType

/-- Whether a port takes something in or gives something out. -/
inductive Direction where
  | input
  | output
  deriving DecidableEq

namespace Direction

/-- The name of a direction. -/
def name : Direction → String
  | input => "input"
  | output => "output"

/-- The port that is meant when none is named. -/
def defaultPort : Direction → String
  | input => defaultInput
  | output => defaultOutput

end Direction

/-- A place of a node where an edge can end. An input may be required; an output
may be limited in how many different connections leave it. -/
structure Port where
  id : String
  direction : Direction
  dataType : DataType
  required : Bool := false
  maxConnections : Option Nat := none
  deriving DecidableEq

namespace Port

/-- The default input of a type. -/
def input (dataType : DataType) (required : Bool) : Port :=
  { id := defaultInput, direction := .input, dataType, required }

/-- The default output of a type. -/
def output (dataType : DataType) : Port :=
  { id := defaultOutput, direction := .output, dataType }

/-- One of the two outputs of a condition, which lead to one place each. -/
def branch (id : String) : Port :=
  { id, direction := .output, dataType := .any, maxConnections := some 1 }

end Port

namespace NodeKind

/-- The inputs of a kind. -/
def inputs : NodeKind → List Port
  | trigger => []
  | text => [.input .any false]
  | llm => [.input .string true]
  | agent => [.input .string true]
  | telegram => [.input .string true]
  | database => [.input .json false]
  | condition => [.input .any true]
  | output => [.input .any true]

/-- The outputs of a kind. -/
def outputs : NodeKind → List Port
  | trigger => [.output .any]
  | text => [.output .string]
  | llm => [.output .string]
  | agent => [.output .string]
  | telegram => [.output .json]
  | database => [.output .json]
  | condition => [.branch "true", .branch "false"]
  | output => []

/-- The ports of a kind in one direction. -/
def ports (kind : NodeKind) : Direction → List Port
  | .input => kind.inputs
  | .output => kind.outputs

/-- All ports of a kind, inputs first. -/
def allPorts (kind : NodeKind) : List Port := kind.inputs ++ kind.outputs

/-- The port of a kind that a handle names, the default one without a handle. -/
def port? (kind : NodeKind) (direction : Direction)
    (handle : Option String) : Option Port :=
  let name := handle.getD direction.defaultPort
  (kind.ports direction).find? fun port => port.id = name

end NodeKind

end Flowgraph
