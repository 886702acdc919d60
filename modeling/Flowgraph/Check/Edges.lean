import Flowgraph.Issue
import Flowgraph.Port

/-!
# Checking edges

An edge is judged by itself against the nodes: its faults do not depend on
other edges. Only what is right can be repeated, so edges without faults are
compared with each other in a second step. Two more checks look at all edges
that connect two different nodes: required inputs need one, and limited outputs
may not have too many.
-/

namespace Flowgraph

/-! ## One edge -/

/-- What is wrong with an edge by itself. -/
inductive EdgeFault where
  | selfLoop
  /-- Ids without a node, the source first. -/
  | dangling (missing : List String)
  | unknownPort (node : Node) (direction : Direction) (port : String)
  | typeMismatch (source : Node) (sourcePort : Port) (target : Node)
    (targetPort : Port)
  deriving DecidableEq

namespace Edge

/-- The faults of an edge between two nodes: a port it names that its node does
not have, or ports that do not fit together. -/
def portFaults (edge : Edge) (source target : Node) : List EdgeFault :=
  match source.kind.port? .output edge.source.portId,
    target.kind.port? .input edge.target.portId with
  | some sourcePort, some targetPort =>
    if sourcePort.dataType.compatible targetPort.dataType then []
    else [.typeMismatch source sourcePort target targetPort]
  | some _, none => [.unknownPort target .input edge.targetPort]
  | none, some _ => [.unknownPort source .output edge.sourcePort]
  | none, none =>
    [.unknownPort source .output edge.sourcePort,
     .unknownPort target .input edge.targetPort]

/-- The faults of an edge. -/
def faults (nodes : List Node) (edge : Edge) : List EdgeFault :=
  if edge.isSelfLoop then [.selfLoop]
  else match findNode? nodes edge.source.nodeId,
    findNode? nodes edge.target.nodeId with
    | some source, some target => edge.portFaults source target
    | some _, none => [.dangling [edge.target.nodeId]]
    | none, some _ => [.dangling [edge.source.nodeId]]
    | none, none => [.dangling [edge.source.nodeId, edge.target.nodeId]]

/-- The issue of a fault. -/
def issue (edge : Edge) : EdgeFault → Issue
  | .selfLoop =>
    let id := edge.source.nodeId
    { Issue.error .edge .selfLoop s!"edge connects node '{id}' to itself" with
      edgeId := some edge.id
      nodeId := some id
      fixHint := some "Connect the output to a different node" }
  | .dangling missing =>
    let ids := String.intercalate "', '" missing
    let message := s!"dangling edge: node '{ids}' does not exist"
    { Issue.error .edge .danglingEdge message with
      edgeId := some edge.id
      details := some (.object [("missing", .array (missing.map .string))])
      fixHint := some "Remove the edge or restore the missing node" }
  | .unknownPort node direction port =>
    let message := s!"{node.kind.name} node '{node.id}' has no " ++
      s!"{direction.name} port '{port}'"
    { Issue.error .edge .unknownPort message with
      edgeId := some edge.id
      nodeId := some node.id
      details := some (.object
        [("direction", .string direction.name), ("port", .string port)]) }
  | .typeMismatch source sourcePort target targetPort =>
    let produced := sourcePort.dataType.name
    let expected := targetPort.dataType.name
    let message := s!"type mismatch: {source.id}.{sourcePort.id} produces " ++
      s!"{produced} but {target.id}.{targetPort.id} expects {expected}"
    { Issue.error .edge .typeMismatch message with
      edgeId := some edge.id
      details := some (.object
        [("sourceType", .string produced), ("targetType", .string expected)]) }

/-- The issue of an edge that repeats an earlier connection. -/
def duplicateIssue (edge : Edge) : Issue :=
  { Issue.warning .edge .duplicateEdge s!"duplicate edge {edge.connection}" with
    edgeId := some edge.id
    fixHint := some "Remove the extra edge" }

end Edge

/-! ## All edges -/

/-- The issues of edges one by one; `seen` are the connections that earlier
edges without faults have made. -/
def edgeIssuesFrom (nodes : List Node) (seen : List String) :
    List Edge → List Issue
  | [] => []
  | edge :: rest =>
    match edge.faults nodes with
    | [] =>
      if edge.connection ∈ seen then
        edge.duplicateIssue :: edgeIssuesFrom nodes seen rest
      else edgeIssuesFrom nodes (edge.connection :: seen) rest
    | faults => faults.map edge.issue ++ edgeIssuesFrom nodes seen rest

/-- The issues of edges one by one. -/
def edgeIssues (nodes : List Node) (edges : List Edge) : List Issue :=
  edgeIssuesFrom nodes [] edges

/-- The ids of nodes, each once, in the order of its first node. -/
def nodeIds (nodes : List Node) : List String := (nodes.map (·.id)).eraseDups

/-- The first node of each id. -/
def firstNodes (nodes : List Node) : List Node :=
  (nodeIds nodes).filterMap (findNode? nodes)

/-- Whether an edge connects two different nodes. Its ports do not matter. -/
def Edge.connects (nodes : List Node) (edge : Edge) : Bool :=
  !edge.isSelfLoop && (findNode? nodes edge.source.nodeId).isSome &&
    (findNode? nodes edge.target.nodeId).isSome

/-- The edges that connect two different nodes. -/
def connecting (nodes : List Node) (edges : List Edge) : List Edge :=
  edges.filter (·.connects nodes)

/-! ## Required inputs -/

/-- Whether an edge enters a port of a node. -/
def Edge.enters (edge : Edge) (node : Node) (port : Port) : Bool :=
  edge.target.nodeId == node.id && edge.targetPort == port.id

/-- The issue of a required input that no edge enters. -/
def Node.missingInput (node : Node) (port : Port) : Issue :=
  let message := s!"required input '{port.id}' is not connected"
  { Issue.error .edge .missingRequiredInput message with
    nodeId := some node.id
    fieldPath := some s!"inputs.{port.id}"
    fixHint := some "Connect an upstream node to this input" }

/-- The issues of required inputs that no edge enters. -/
def inputIssues (nodes : List Node) (edges : List Edge) : List Issue :=
  let entering := connecting nodes edges
  (firstNodes nodes).flatMap fun node =>
    (node.kind.inputs.filter fun port =>
      port.required && !entering.any (·.enters node port)).map node.missingInput

/-! ## Limited outputs -/

/-- Whether an edge leaves a port of a node. -/
def Edge.leaves (edge : Edge) (node : Node) (port : Port) : Bool :=
  edge.source.nodeId == node.id && edge.sourcePort == port.id

/-- The number of different connections that leave a port of a node. -/
def connectionCount (edges : List Edge) (node : Node) (port : Port) : Nat :=
  ((edges.filter (·.leaves node port)).map (·.connection)).eraseDups.length

/-- The issue of an output that too many connections leave. -/
def Node.tooManyConnections (node : Node) (port : Port) (limit count : Nat) :
    Issue :=
  let message := s!"output '{port.id}' allows {limit} connection(s) " ++
    s!"but has {count}"
  { Issue.error .edge .tooManyConnections message with
    nodeId := some node.id
    details := some (.object
      [("count", .int count), ("limit", .int limit),
       ("port", .string port.id)]) }

/-- The issues of outputs that too many connections leave. -/
def outputIssues (nodes : List Node) (edges : List Edge) : List Issue :=
  let leaving := connecting nodes edges
  (firstNodes nodes).flatMap fun node =>
    node.kind.outputs.filterMap fun port =>
      match port.maxConnections with
      | none => none
      | some limit =>
        let count := connectionCount leaving node port
        if limit < count then some (node.tooManyConnections port limit count)
        else none

/-- All issues of edges. -/
def connectionIssues (nodes : List Node) (edges : List Edge) : List Issue :=
  edgeIssues nodes edges ++ inputIssues nodes edges ++ outputIssues nodes edges

end Flowgraph
