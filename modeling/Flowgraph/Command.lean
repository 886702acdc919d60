import Flowgraph.Format.Report
import Flowgraph.Format.Run
import Flowgraph.Run.Runner

/-!
# Commands

What the commands print and how they end, given what the file holds. A command
that cannot read its file says so with all causes, the outermost first. The
run command refuses a graph with errors and lists them.
-/

namespace Flowgraph

/-- What goes to standard output. -/
inductive Printed where
  | nothing
  | text (text : String)
  | value (value : Json)

/-- How a command ends: its exit code, what it prints, and the lines it writes
beside that. -/
structure Output where
  exit : Nat
  printed : Printed := .nothing
  messages : List String := []

namespace Command

/-- What is printed when no command is given. -/
def greeting : String := "trellis - use --help to see available commands\n"

/-- The cause given for a file that is not there. -/
def noSuchFile : String := "No such file or directory (os error 2)"

/-! ## Failures -/

/-- A cause with its number, if there are several; further lines of it are
indented as far as the first. -/
def causeLines (number : Option Nat) (cause : String) : List String :=
  let (mark, margin) : String × String := match number with
    | some n => (s!"    {n}: ", "       ")
    | none => ("    ", "    ")
  match cause.splitOn "\n" with
  | [] => [mark]
  | first :: rest => (mark ++ first) :: rest.map (margin ++ ·)

/-- A failure and its causes. -/
def failureLines (failure : String) : List String → List String
  | [] => [s!"Error: {failure}"]
  | [cause] =>
    s!"Error: {failure}" :: "" :: "Caused by:" :: causeLines none cause
  | causes =>
    s!"Error: {failure}" :: "" :: "Caused by:" ::
      causes.zipIdx.flatMap fun (cause, n) => causeLines (some n) cause

/-- The end of a command that fails. -/
def fail (failure : String) (causes : List String) : Output :=
  { exit := 1, messages := failureLines failure causes }

/-- A fault of a document and what is behind it. -/
def documentCauses (fault : DocumentFault) : List String :=
  match fault with
  | .unreadable problem => [fault.message, problem.message]
  | .unsupportedVersion _ => [fault.message]

/-! ## Commands -/

/-- The graph of a file and its report. The content of the file is given, or the
reason why it cannot be read. -/
def load (file : String) (content : Except String String) :
    Except Output (Graph × Report) :=
  match content with
  | .error cause => .error (fail s!"failed to read graph file: {file}" [cause])
  | .ok text =>
    match Document.ofText text with
    | .error fault =>
      .error (fail s!"failed to load graph file: {file}" (documentCauses fault))
    | .ok document => .ok (document.graph, document.graph.validate)

/-- Prints the report of a file. -/
def validate (file : String) (content : Except String String) : Output :=
  match load file content with
  | .error output => output
  | .ok (_, report) =>
    { exit := if report.hasErrors then 1 else 0
      printed := .value report.toJson }

/-- The refusal to run a graph with errors. -/
def refuse (report : Report) : Output :=
  { exit := 1
    messages := (report.issues.filter (·.isError)).map Issue.display ++
      [s!"refusing to run: {report.errors} error(s)"] }

/-- The graph of a file that can be run, and its report. -/
def prepare (file : String) (content : Except String String) :
    Except Output (Graph × Report) := do
  let (graph, report) ← load file content
  if report.hasErrors then throw (refuse report)
  return (graph, report)

/-- The name of a status in a line of progress. -/
def label : NodeStatus → String
  | .idle => "Idle"
  | .pending => "Pending"
  | .running => "Running"
  | .succeeded => "Succeeded"
  | .failed => "Failed"
  | .skipped => "Skipped"
  | .cancelled => "Cancelled"

/-- The line of progress of an event. -/
def progressLine? : Event → Option String
  | .nodeStatusChanged _ id status => some s!"  {id}: {label status}"
  | _ => none

/-- The statuses of a plan's nodes, in plan order. -/
def statusList (plan : Plan) (outcome : Outcome) : List Json :=
  plan.nodesInOrder.map fun id =>
    .object [("nodeId", .string id),
      ("status", match outcome.statusOf id with
        | some status => status.toJson
        | none => .null)]

/-- What is printed about a finished run. -/
def summary (plan : Plan) (outcome : Outcome) : Json :=
  Json.canonical (.object [("execution", outcome.execution.toJson),
    ("statuses", .array (statusList plan outcome)),
    ("issues", .array (outcome.issues.map Issue.toJson))])

/-- The end of a command whose run has begun, or could not begin. -/
def finish (report : Report) (result : Except RunFault Outcome) : Output :=
  match result, report.plan with
  | .error fault, _ => fail "failed to start run" [fault.message]
  | .ok _, none => fail "validated graph has no execution plan" []
  | .ok outcome, some plan =>
    { exit := if outcome.execution.status = .succeeded then 0 else 1
      printed := .value (summary plan outcome)
      messages := outcome.events.filterMap progressLine? }

/-- Runs the graph of a file with simulated work. -/
def run (stamp : Stamp) (file : String) (content : Except String String)
    (simulation : Simulation) : Output :=
  match prepare file content with
  | .error output => output
  | .ok (graph, report) =>
    finish report (runReport stamp graph report simulation.work .never)

end Command

end Flowgraph
