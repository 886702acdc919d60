import Flowgraph.Format.Config
import Flowgraph.Graph.Basic

/-!
# The written form of graphs

Nodes, edges and their endpoints are objects with fixed members. Ids have to be
given; most other members have a default value.
-/

namespace Flowgraph

namespace Endpoint

/-- The fields of an endpoint. -/
def fields : List (Field Tree Endpoint) :=
  [.of "nodeId" .required Reader.string fun v e => { e with nodeId := v },
   .of "portId" .defaulted (Reader.optional Reader.string)
    fun v e => { e with portId := v }]

/-- The endpoint that stands at a place of a text. -/
def read : Reader Endpoint := .record "struct Endpoint" fields { nodeId := "" }

/-- The written form of an endpoint. -/
def toJson (endpoint : Endpoint) : Json :=
  .object (
    ("nodeId", .string endpoint.nodeId) ::
    Json.member? "portId" .string endpoint.portId)

end Endpoint

namespace Edge

/-- The fields of an edge. -/
def fields : List (Field Tree Edge) :=
  [.of "id" .required Reader.string fun v e => { e with id := v },
   .of "source" .required Endpoint.read fun v e => { e with source := v },
   .of "target" .required Endpoint.read fun v e => { e with target := v }]

/-- The edge that stands at a place of a text. -/
def read : Reader Edge :=
  .record "struct Edge" fields
    { id := "", source := { nodeId := "" }, target := { nodeId := "" } }

/-- The written form of an edge. -/
def toJson (edge : Edge) : Json :=
  .object
    [("id", .string edge.id), ("source", edge.source.toJson),
     ("target", edge.target.toJson)]

end Edge

namespace Node

/-- The fields of a node. -/
def fields : List (Field Tree Node) :=
  [.of "id" .required Reader.string fun v n => { n with id := v },
   .of "name" .defaulted Reader.string fun v n => { n with name := v },
   .of "enabled" .defaulted Reader.bool fun v n => { n with enabled := v },
   .of "description" .defaulted (Reader.optional Reader.string)
    fun v n => { n with description := v },
   .of "meta" .defaulted (Reader.optional Reader.json)
    fun v n => { n with info := v },
   .of "config" .required NodeConfig.read fun v n => { n with config := v }]

/-- The node that stands at a place of a text. -/
def read : Reader Node :=
  .record "struct Node" fields { id := "", config := .trigger }

/-- The written form of a node. -/
def toJson (node : Node) : Json :=
  .object (
    ("id", .string node.id) ::
    ("name", .string node.name) ::
    ("enabled", .bool node.enabled) ::
    Json.member? "description" .string node.description ++
    Json.member? "meta" (fun j => j) node.info ++
    [("config", node.config.toJson)])

end Node

namespace Graph

/-- The fields of a graph. -/
def fields : List (Field Tree Graph) :=
  [.of "nodes" .defaulted (Reader.list Node.read)
    fun v g => { g with nodes := v },
   .of "edges" .defaulted (Reader.list Edge.read)
    fun v g => { g with edges := v }]

/-- The graph that stands at a place of a text. -/
def read : Reader Graph := .record "struct Graph" fields {}

/-- The written form of a graph. -/
def toJson (graph : Graph) : Json :=
  .object
    [("nodes", .array (graph.nodes.map Node.toJson)),
     ("edges", .array (graph.edges.map Edge.toJson))]

end Graph

end Flowgraph
