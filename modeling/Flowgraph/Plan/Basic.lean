import Flowgraph.Check.Edges
import Flowgraph.Plan.Order
import Flowgraph.Plan.Reach
import Flowgraph.Table

/-!
# Plans

A plan says in which order the nodes of a graph are to be run. It is made from
the wiring of the graph and exists unless there is a cycle. What is in the way
of a plan, or odd about it, is reported as issues of the whole graph.
-/

namespace Flowgraph

/-- The wiring of a graph: its ids, and a link for the first edge from one node
to another one. -/
def wiring (nodes : List Node) (edges : List Edge) : Wiring String where
  vertices := nodeIds nodes
  links := ((connecting nodes edges).map fun edge =>
    (edge.source.nodeId, edge.target.nodeId)).eraseDups

/-- An order in which nodes are to be run, with what feeds what. -/
structure Plan where
  nodesInOrder : List String
  adjacency : Table (List String)
  startNodes : List String
  unreachableNodes : List String
  deriving DecidableEq

namespace Plan

/-- The nodes that a node feeds. -/
def downstream (plan : Plan) (id : String) : List String :=
  (plan.adjacency.find? id).getD []

/-- The number of nodes. -/
def size (plan : Plan) : Nat := plan.nodesInOrder.length

/-- Whether there are no nodes. -/
def isEmpty (plan : Plan) : Bool := plan.nodesInOrder.isEmpty

end Plan

namespace Wiring

variable (w : Wiring String)

/-- The issue of a graph without a node to start from. -/
def startIssues : List Issue :=
  if w.starts.isEmpty then
    let hint := "Every node has an incoming edge; " ++
      "add a node without inputs to start the run"
    [{ Issue.error .graph .noStartNode "graph has no start node" with
      fixHint := some hint }]
  else []

/-- The issue of a cycle. It names the nodes that have no place in the order. -/
def cycleIssues : List Issue :=
  if w.hasCycle then
    [{ Issue.error .graph .cycle "cycle detected" with
      details := some (.object [("nodes", .array (w.unordered.map .string))])
      fixHint := some "Remove one of the edges that close the loop" }]
  else []

/-- The issues of nodes that cannot be reached. -/
def reachIssues : List Issue :=
  let message := "node is not reachable from any start node"
  w.unreachable.map fun id =>
    { Issue.warning .graph .unreachableNode message with nodeId := some id }

/-- All issues of a wiring. -/
def issues : List Issue := w.startIssues ++ w.cycleIssues ++ w.reachIssues

/-- The plan of a wiring without a cycle. -/
def plan? : Option Plan :=
  if w.hasCycle then none
  else some {
    nodesInOrder := w.order
    adjacency := .ofList (w.vertices.map fun v => (v, w.successors v))
    startNodes := w.starts
    unreachableNodes := w.unreachable }

end Wiring

end Flowgraph
