import Flowgraph.Graph.Config
import Flowgraph.Json.Content

/-!
# The written form of configurations

A configuration is an object whose member `kind` says what the other members
are; the tool of an agent is tagged by `type` in the same way. Members that are
absent have their default value, and optional values that are nothing are not
written.
-/

namespace Flowgraph

namespace Json

/-- A member that is written only if there is a value. -/
def member? (name : String) (write : α → Json) : Option α → List (String × Json)
  | none => []
  | some a => [(name, write a)]

/-- A number without a sign. -/
def nat (n : Nat) : Json := int n

/-- A 32-bit floating-point number. -/
def single (x : Single) : Json := .number (.single x)

end Json

namespace NodeKind

/-- The kind that stands at a place of a text. -/
def read : Reader NodeKind := .choice (.named name all)

/-- The written form of a kind. -/
def toJson (kind : NodeKind) : Json := .string kind.name

end NodeKind

namespace TableSelector

/-- The fields of a selector. -/
def fields : List (Field Json TableSelector) :=
  [.of "connectionId" .defaulted Content.string
    fun v s => { s with connectionId := v },
   .of "table" .defaulted Content.string fun v s => { s with table := v }]

/-- The selector that stands in a configuration. -/
def ofJson : Content TableSelector := .record "struct TableSelector" fields {}

/-- The written form of a selector. -/
def toJson (selector : TableSelector) : Json :=
  .object
    [("connectionId", .string selector.connectionId),
     ("table", .string selector.table)]

end TableSelector

namespace Tool

/-- The types of tools. -/
inductive Kind where
  | none
  | httpRequest
  | webSearch
  | databaseQuery
  deriving DecidableEq

/-- The types by name, in the order in which they are numbered. -/
def kinds : Variants Kind :=
  [("none", .none), ("httpRequest", .httpRequest), ("webSearch", .webSearch),
   ("databaseQuery", .databaseQuery)]

/-- A tool of a type with what came beside the tag. -/
def ofContent : Kind × Json → Except Problem Tool
  | (.none, j) => do
    Content.noFields j
    return .none
  | (.webSearch, j) => do
    Content.noFields j
    return .webSearch
  | (.httpRequest, j) =>
    .httpRequest <$> Content.record "struct variant AgentTool::HttpRequest"
      [.of "url" .defaulted Content.string fun v _ => v] "" j
  | (.databaseQuery, j) =>
    .databaseQuery <$> Content.record "struct variant AgentTool::DatabaseQuery"
      [.of "selector" .defaulted TableSelector.ofJson fun v _ => v] {} j

/-- How a tool is spoken of. -/
def wanted : String := "internally tagged enum AgentTool"

/-- The tool that stands at a place of a text. -/
def read : Reader Tool := fun tree => do
  ofContent (← Reader.tagged "type" wanted kinds tree)

/-- The tool that stands in a configuration. -/
def ofJson : Content Tool := fun j => do
  ofContent (← Content.tagged "type" wanted kinds j)

/-- The written form of a tool. -/
def toJson : Tool → Json
  | none => .object [("type", .string "none")]
  | httpRequest url =>
    .object [("type", .string "httpRequest"), ("url", .string url)]
  | webSearch => .object [("type", .string "webSearch")]
  | databaseQuery selector =>
    .object [("type", .string "databaseQuery"), ("selector", selector.toJson)]

end Tool

namespace TextConfig

/-- The fields of a text step. -/
def fields : List (Field Json TextConfig) :=
  [.of "text" .defaulted Content.string fun v c => { c with text := v }]

/-- The configuration beside the tag. -/
def ofJson : Content TextConfig := .record "struct TextConfig" fields {}

/-- The members beside the tag. -/
def members (config : TextConfig) : List (String × Json) :=
  [("text", .string config.text)]

end TextConfig

namespace LlmConfig

/-- The fields of a step that asks a language model. -/
def fields : List (Field Json LlmConfig) :=
  [.of "model" .defaulted Content.string fun v c => { c with model := v },
   .of "systemPrompt" .defaulted (Content.optional Content.string)
    fun v c => { c with systemPrompt := v },
   .of "temperature" .defaulted (Content.optional Content.single)
    fun v c => { c with temperature := v }]

/-- The configuration beside the tag. -/
def ofJson : Content LlmConfig := .record "struct LlmConfig" fields {}

/-- The members beside the tag. -/
def members (config : LlmConfig) : List (String × Json) :=
  ("model", .string config.model) ::
    Json.member? "systemPrompt" .string config.systemPrompt ++
    Json.member? "temperature" .single config.temperature

end LlmConfig

namespace AgentConfig

/-- The fields of a step that lets a language model use a tool. -/
def fields : List (Field Json AgentConfig) :=
  [.of "model" .defaulted Content.string fun v c => { c with model := v },
   .of "systemPrompt" .defaulted Content.string
    fun v c => { c with systemPrompt := v },
   .of "tool" .defaulted Tool.ofJson fun v c => { c with tool := v }]

/-- The configuration beside the tag. -/
def ofJson : Content AgentConfig := .record "struct AgentConfig" fields {}

/-- The members beside the tag. -/
def members (config : AgentConfig) : List (String × Json) :=
  [("model", .string config.model),
   ("systemPrompt", .string config.systemPrompt),
   ("tool", config.tool.toJson)]

end AgentConfig

namespace TelegramConfig

/-- The fields of a step that sends a message. -/
def fields : List (Field Json TelegramConfig) :=
  [.of "botToken" .defaulted Content.string fun v c => { c with botToken := v },
   .of "chatId" .defaulted Content.string fun v c => { c with chatId := v },
   .of "messageTemplate" .defaulted (Content.optional Content.string)
    fun v c => { c with messageTemplate := v }]

/-- The configuration beside the tag. -/
def ofJson : Content TelegramConfig := .record "struct TelegramConfig" fields {}

/-- The members beside the tag. -/
def members (config : TelegramConfig) : List (String × Json) :=
  ("botToken", .string config.botToken) :: ("chatId", .string config.chatId) ::
    Json.member? "messageTemplate" .string config.messageTemplate

end TelegramConfig

namespace DatabaseConfig

/-- The fields of a database step. -/
def fields : List (Field Json DatabaseConfig) :=
  [.of "driver" .defaulted (Content.choice (.named Driver.name Driver.all))
    fun v c => { c with driver := v },
   .of "host" .defaulted Content.string fun v c => { c with host := v },
   .of "port" .defaulted (Content.optional (Content.unsigned 16))
    fun v c => { c with port := v.map UInt16.ofBitVec },
   .of "database" .defaulted Content.string fun v c => { c with database := v },
   .of "path" .defaulted Content.string fun v c => { c with path := v },
   .of "operation" .defaulted
    (Content.choice (.named Operation.name Operation.all))
    fun v c => { c with operation := v },
   .of "table" .defaulted Content.string fun v c => { c with table := v },
   .of "query" .defaulted Content.string fun v c => { c with query := v }]

/-- The configuration beside the tag. -/
def ofJson : Content DatabaseConfig := .record "struct DatabaseConfig" fields {}

/-- The members beside the tag. -/
def members (config : DatabaseConfig) : List (String × Json) :=
  ("driver", .string config.driver.name) :: ("host", .string config.host) ::
    Json.member? "port" (fun n => .nat n.toNat) config.port ++
    [("database", .string config.database), ("path", .string config.path),
     ("operation", .string config.operation.name),
     ("table", .string config.table), ("query", .string config.query)]

end DatabaseConfig

namespace ConditionConfig

/-- The fields of a step with two branches. -/
def fields : List (Field Json ConditionConfig) :=
  [.of "expression" .defaulted Content.string
    fun v c => { c with expression := v }]

/-- The configuration beside the tag. -/
def ofJson : Content ConditionConfig :=
  .record "struct ConditionConfig" fields {}

/-- The members beside the tag. -/
def members (config : ConditionConfig) : List (String × Json) :=
  [("expression", .string config.expression)]

end ConditionConfig

namespace NodeConfig

/-- A configuration of a kind with what came beside the tag. -/
def ofContent : NodeKind × Json → Except Problem NodeConfig
  | (.trigger, j) => do
    Content.noFields j
    return .trigger
  | (.output, j) => do
    Content.noFields j
    return .output
  | (.text, j) => .text <$> TextConfig.ofJson j
  | (.llm, j) => .llm <$> LlmConfig.ofJson j
  | (.agent, j) => .agent <$> AgentConfig.ofJson j
  | (.telegram, j) => .telegram <$> TelegramConfig.ofJson j
  | (.database, j) => .database <$> DatabaseConfig.ofJson j
  | (.condition, j) => .condition <$> ConditionConfig.ofJson j

/-- The configuration that stands at a place of a text. -/
def read : Reader NodeConfig := fun tree => do
  ofContent (← Reader.tagged "kind" "internally tagged enum NodeConfig"
    (.named NodeKind.name NodeKind.all) tree)

/-- The members beside the tag. -/
def members : NodeConfig → List (String × Json)
  | trigger => []
  | text c => c.members
  | llm c => c.members
  | agent c => c.members
  | telegram c => c.members
  | database c => c.members
  | condition c => c.members
  | output => []

/-- The written form of a configuration, its tag in front. -/
def toJson (config : NodeConfig) : Json :=
  .object (("kind", .string config.kind.name) :: config.members)

end NodeConfig

end Flowgraph
