import Flowgraph.Graph.Basic
import Flowgraph.Issue
import Flowgraph.Number.Layout
import Flowgraph.Text.Blank

/-!
# Checking configurations

Each configuration requires some texts to be given: which ones is a table, that
depends on nothing but the kind of the node and on the choices made in it. A
text of blanks does not count as given. The temperature of a language model is
the one value with a range.
-/

namespace Flowgraph

/-- A text that has to be given: where it is, what it is called, and what stands
there. -/
structure Requirement where
  path : String
  label : String
  value : String
  deriving DecidableEq

/-- The texts that a tool requires. -/
def Tool.requirements : Tool → List Requirement
  | none | webSearch => []
  | httpRequest url => [⟨"tool.url", "tool url", url⟩]
  | databaseQuery selector =>
    [⟨"tool.selector.connectionId", "tool connection", selector.connectionId⟩,
     ⟨"tool.selector.table", "tool table", selector.table⟩]

namespace DatabaseConfig

/-- What says where a database is. -/
def location (config : DatabaseConfig) : List Requirement :=
  if config.driver.isEmbedded then [⟨"path", "database file path", config.path⟩]
  else
    [⟨"host", "host", config.host⟩,
     ⟨"database", "database name", config.database⟩]

/-- What an operation aims at. -/
def target (config : DatabaseConfig) : Requirement :=
  match config.operation with
  | .query => ⟨"query", "query", config.query⟩
  | _ => ⟨"table", "table name", config.table⟩

end DatabaseConfig

/-- The texts that a configuration requires, in the order in which they are
reported. -/
def NodeConfig.requirements : NodeConfig → List Requirement
  | trigger | text _ | output => []
  | llm c => [⟨"model", "model", c.model⟩]
  | agent c =>
    ⟨"model", "model", c.model⟩ ::
      ⟨"systemPrompt", "system prompt", c.systemPrompt⟩ ::
      c.tool.requirements
  | telegram c =>
    [⟨"botToken", "bot token", c.botToken⟩, ⟨"chatId", "chat id", c.chatId⟩]
  | database c => c.location ++ [c.target]
  | condition c => [⟨"expression", "expression", c.expression⟩]

/-- Whether a temperature lies between zero and two. -/
def isTemperature (t : Single) : Bool :=
  0 ≤ t.order && t.order ≤ (Binary.ofInt .single 2).order

/-- The temperature of a configuration, if it has one that is out of range. -/
def NodeConfig.badTemperature? : NodeConfig → Option Single
  | llm c => c.temperature.filter fun t => !isTemperature t
  | _ => none

namespace Node

/-- What a node is called in a hint: its name, or its id if the name is
blank. -/
def displayName (node : Node) : String :=
  if Text.isBlankText node.name then node.id else node.name

/-- The issue of a text that is not given. -/
def missingField (node : Node) (requirement : Requirement) : Issue :=
  let message := s!"{requirement.label} required"
  { Issue.error .field .missingRequiredField message with
    nodeId := some node.id
    fieldPath := some requirement.path
    fixHint := some s!"Set {requirement.label} on node '{node.displayName}'" }

/-- The issue of a temperature out of range. -/
def badTemperature (node : Node) (t : Single) : Issue :=
  let text := String.ofList (Layout.sentence.write t)
  let message := s!"temperature must be between 0 and 2, got {text}"
  { Issue.error .field .invalidField message with
    nodeId := some node.id
    fieldPath := some "temperature" }

/-- The issues of the configuration of a node. -/
def fieldIssues (node : Node) : List Issue :=
  let missing := node.config.requirements.filter fun r =>
    Text.isBlankText r.value
  missing.map node.missingField ++
    node.config.badTemperature?.toList.map node.badTemperature

end Node

end Flowgraph
