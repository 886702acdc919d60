import Flowgraph.Format.Config
import Flowgraph.Report

/-!
# The written form of reports

Issues, plans, ports and reports are only ever written.
-/

namespace Flowgraph

/-- The written form of a port. -/
def Port.toJson (port : Port) : Json :=
  .object (
    ("id", .string port.id) ::
    ("direction", .string port.direction.name) ::
    ("dataType", .string port.dataType.name) ::
    ("required", .bool port.required) ::
    Json.member? "maxConnections" .nat port.maxConnections)

/-- The written form of an issue, but for its first member, the random id. -/
def Issue.toJson (issue : Issue) : Json :=
  .object (
    ("severity", .string issue.severity.name) ::
    ("kind", .string issue.kind.name) ::
    ("code", .string issue.code.name) ::
    ("message", .string issue.message) ::
    Json.member? "nodeId" .string issue.nodeId ++
    Json.member? "edgeId" .string issue.edgeId ++
    Json.member? "fieldPath" .string issue.fieldPath ++
    Json.member? "details" (fun j => j) issue.details ++
    Json.member? "fixHint" .string issue.fixHint)

/-- Ids as an array. -/
def idsToJson (ids : List String) : Json := .array (ids.map .string)

/-- The written form of a plan. -/
def Plan.toJson (plan : Plan) : Json :=
  let successors := plan.adjacency.entries.map fun (id, ids) =>
    (id, idsToJson ids)
  .object
    [("nodesInOrder", idsToJson plan.nodesInOrder),
     ("adjacency", .object successors),
     ("startNodes", idsToJson plan.startNodes),
     ("unreachableNodes", idsToJson plan.unreachableNodes)]

/-- The members of a report. -/
def Report.members (report : Report) : List (String × Json) :=
  ("issues", .array (report.issues.map Issue.toJson)) ::
    ("errors", .nat report.errors) ::
    ("warnings", .nat report.warnings) ::
    ("missingRequiredCount", .nat report.missingRequiredCount) ::
    Json.member? "plan" Plan.toJson report.plan

/-- The written form of a report. -/
def Report.toJson (report : Report) : Json := .object report.members

end Flowgraph
