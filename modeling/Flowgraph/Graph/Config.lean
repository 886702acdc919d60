import Flowgraph.Number.Binary

/-!
# Node configurations

A node is of one of eight kinds, and its configuration holds what that kind
needs. A value that was not given is the empty text, or nothing at all where a
value may be absent; whether a kind can do without it is for the checks to say.
-/

namespace Flowgraph

/-- The kinds of nodes. -/
inductive NodeKind where
  | trigger
  | text
  | llm
  | agent
  | telegram
  | database
  | condition
  | output
  deriving DecidableEq

namespace NodeKind

/-- All kinds. -/
def all : List NodeKind :=
  [trigger, text, llm, agent, telegram, database, condition, output]

/-- The name of a kind. -/
def name : NodeKind → String
  | trigger => "trigger"
  | text => "text"
  | llm => "llm"
  | agent => "agent"
  | telegram => "telegram"
  | database => "database"
  | condition => "condition"
  | output => "output"

end NodeKind

/-- The databases that can be connected to. -/
inductive Driver where
  | postgres
  | mysql
  | sqlite
  deriving DecidableEq

namespace Driver

/-- All drivers. -/
def all : List Driver := [postgres, mysql, sqlite]

/-- The name of a driver. -/
def name : Driver → String
  | postgres => "postgres"
  | mysql => "mysql"
  | sqlite => "sqlite"

/-- An embedded database is a local file instead of a server. -/
def isEmbedded : Driver → Bool
  | sqlite => true
  | _ => false

end Driver

/-- What is done with a database. A `query` is free text, the others aim at one
table. -/
inductive Operation where
  | query
  | select
  | insert
  | update
  | delete
  deriving DecidableEq

namespace Operation

/-- All operations. -/
def all : List Operation := [query, select, insert, update, delete]

/-- The name of an operation. -/
def name : Operation → String
  | query => "query"
  | select => "select"
  | insert => "insert"
  | update => "update"
  | delete => "delete"

end Operation

/-- A table behind a stored connection. -/
structure TableSelector where
  connectionId : String := ""
  table : String := ""
  deriving DecidableEq

/-- The tool that an agent may call. -/
inductive Tool where
  | none
  | httpRequest (url : String)
  | webSearch
  | databaseQuery (selector : TableSelector)
  deriving DecidableEq

/-- A text step: the text it gives. -/
structure TextConfig where
  text : String := ""
  deriving DecidableEq

/-- A step that asks a language model. -/
structure LlmConfig where
  model : String := ""
  systemPrompt : Option String := none
  temperature : Option Single := none
  deriving DecidableEq

/-- A step that lets a language model use a tool. -/
structure AgentConfig where
  model : String := ""
  systemPrompt : String := ""
  tool : Tool := .none
  deriving DecidableEq

/-- A step that sends a message to a chat. -/
structure TelegramConfig where
  botToken : String := ""
  chatId : String := ""
  messageTemplate : Option String := none
  deriving DecidableEq

/-- A database step; `path` is the file of an embedded database. -/
structure DatabaseConfig where
  driver : Driver := .postgres
  host : String := ""
  port : Option UInt16 := none
  database : String := ""
  path : String := ""
  operation : Operation := .select
  table : String := ""
  query : String := ""
  deriving DecidableEq

/-- A step that goes on by one of two branches. -/
structure ConditionConfig where
  expression : String := ""
  deriving DecidableEq

/-- What a node does, with what its kind needs for it. -/
inductive NodeConfig where
  | trigger
  | text (config : TextConfig)
  | llm (config : LlmConfig)
  | agent (config : AgentConfig)
  | telegram (config : TelegramConfig)
  | database (config : DatabaseConfig)
  | condition (config : ConditionConfig)
  | output
  deriving DecidableEq

/-- The kind of a configuration. -/
def NodeConfig.kind : NodeConfig → NodeKind
  | trigger => .trigger
  | text _ => .text
  | llm _ => .llm
  | agent _ => .agent
  | telegram _ => .telegram
  | database _ => .database
  | condition _ => .condition
  | output => .output

end Flowgraph
