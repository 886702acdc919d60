import Flowgraph.Graph.Config
import Flowgraph.Json.Basic

/-!
# Graphs

A graph is a list of nodes and a list of edges between their ports. Nothing
about it is required to hold: ids may repeat, edges may lead to nodes that do
not exist. Where an id stands for a node it stands for the first node that has
it.
-/

namespace Flowgraph

/-- A step of a graph. -/
structure Node where
  id : String
  name : String := ""
  enabled : Bool := true
  description : Option String := none
  /-- Free JSON that is only carried along. -/
  info : Option Json := none
  config : NodeConfig
  deriving DecidableEq

namespace Node

/-- The kind of a node. -/
def kind (node : Node) : NodeKind := node.config.kind

/-- A new enabled node, named after its id. -/
def new (id : String) (config : NodeConfig) : Node := { id, name := id, config }

end Node

/-- The port of an edge's target when it names none. -/
def defaultInput : String := "in"

/-- The port of an edge's source when it names none. -/
def defaultOutput : String := "out"

/-- One side of an edge: a node and, if it is not the default one, a port. -/
structure Endpoint where
  nodeId : String
  portId : Option String := none
  deriving DecidableEq

/-- A connection from an output port to an input port. -/
structure Edge where
  id : String
  source : Endpoint
  target : Endpoint
  deriving DecidableEq

namespace Edge

/-- The output port that an edge leaves. -/
def sourcePort (edge : Edge) : String := edge.source.portId.getD defaultOutput

/-- The input port that an edge enters. -/
def targetPort (edge : Edge) : String := edge.target.portId.getD defaultInput

/-- Whether an edge leads back to the node it leaves. -/
def isSelfLoop (edge : Edge) : Bool := edge.source.nodeId == edge.target.nodeId

/-- The connection that an edge makes, as text. Edges between the same ports
have the same text. -/
def connection (edge : Edge) : String :=
  edge.source.nodeId ++ ":" ++ edge.sourcePort ++ "->" ++
    edge.target.nodeId ++ ":" ++ edge.targetPort

end Edge

/-- Nodes and the edges between them. -/
structure Graph where
  nodes : List Node := []
  edges : List Edge := []
  deriving DecidableEq

/-- The node of an id among nodes. -/
def findNode? (nodes : List Node) (id : String) : Option Node :=
  nodes.find? fun node => node.id = id

namespace Graph

/-- The node of an id. -/
def node? (graph : Graph) (id : String) : Option Node :=
  findNode? graph.nodes id

end Graph

end Flowgraph
