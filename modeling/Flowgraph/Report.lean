import Flowgraph.Check.Fields
import Flowgraph.Plan.Basic

/-!
# Reports

A report holds everything that was found out about a graph: the issues, in the
order of the checks that raised them, how many there are, and the plan. A graph
with errors has no plan, whatever the errors are.
-/

namespace Flowgraph

/-- What was found out about a graph. -/
structure Report where
  issues : List Issue
  errors : Nat
  warnings : Nat
  missingRequiredCount : Nat
  plan : Option Plan
  deriving DecidableEq

namespace Report

/-- The report of issues, with a plan unless one of them is an error. -/
def ofIssues (issues : List Issue) (plan : Option Plan) : Report :=
  let errors := issues.countP (·.isError)
  { issues
    errors
    warnings := issues.countP (·.isWarning)
    missingRequiredCount := issues.countP (·.code.isMissingRequired)
    plan := if errors = 0 then plan else none }

/-- Whether there are errors. -/
def hasErrors (report : Report) : Bool := 0 < report.errors

/-- The issues of one node. -/
def issuesFor (report : Report) (id : String) : List Issue :=
  report.issues.filter fun issue => issue.nodeId = some id

/-- Whether two reports say the same. -/
def same (a b : Report) : Bool :=
  a.issues.length == b.issues.length &&
    (a.issues.zip b.issues).all (fun (x, y) => x.same y) &&
    { a with issues := [] } == { b with issues := [] }

end Report

/-- The nodes whose id an earlier node has; `seen` are the ids of earlier
ones. -/
def repeatedNodesFrom (seen : List String) : List Node → List Node
  | [] => []
  | node :: rest =>
    if node.id ∈ seen then node :: repeatedNodesFrom seen rest
    else repeatedNodesFrom (node.id :: seen) rest

/-- The issue of a node whose id is taken. -/
def Node.duplicateId (node : Node) : Issue :=
  { Issue.error .graph .duplicateNodeId s!"duplicate node id '{node.id}'" with
    nodeId := some node.id
    fixHint := some "Give every node a unique id" }

/-- The issues of ids that are taken. -/
def duplicateIssues (nodes : List Node) : List Issue :=
  (repeatedNodesFrom [] nodes).map Node.duplicateId

/-- Checks nodes and edges and plans their run. -/
def validate (nodes : List Node) (edges : List Edge) : Report :=
  let w := wiring nodes edges
  let issues := duplicateIssues nodes ++ nodes.flatMap Node.fieldIssues ++
    connectionIssues nodes edges ++ w.issues
  .ofIssues issues w.plan?

/-- Checks a graph and plans its run. -/
def Graph.validate (graph : Graph) : Report :=
  Flowgraph.validate graph.nodes graph.edges

end Flowgraph
