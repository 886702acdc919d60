import Flowgraph.Check.Fields
import Flowgraph.Format.Config
import Mathlib.Data.List.Forall2

/-!
# Required texts

Which texts a configuration has to give follows from a few choices that are
written in it: its kind, the driver and the operation of a database step, the
type of a tool. `Json.requiredPaths` reads the choices off the written form and
answers with the paths at which there has to be a text, and a text is missing if
the characters it consists of are all among the twenty-five that Unicode calls
white space. None of this is about checks.

The checks have a table of requirements instead, which takes the texts from
where they are stored. `requirements_written` ties each requirement to its path:
the text that the check looks at is the one at that place of the written form.
-/

namespace Flowgraph

/-! ## Paths in written forms -/

/-- The code points of the Unicode property `White_Space`, one by one. -/
def Text.whiteSpace : List Nat :=
  [0x9, 0xa, 0xb, 0xc, 0xd, 0x20, 0x85, 0xa0, 0x1680, 0x2000, 0x2001, 0x2002,
   0x2003, 0x2004, 0x2005, 0x2006, 0x2007, 0x2008, 0x2009, 0x200a, 0x2028,
   0x2029, 0x202f, 0x205f, 0x3000]

/-- A path as one text. -/
def dotted (path : List String) : String := String.intercalate "." path

namespace Json

/-- The value to which a path of member names leads. -/
def at? : Json → List String → Option Json
  | j, [] => some j
  | .object members, name :: path =>
    (members.lookup name).bind fun j => j.at? path
  | _, _ => none

/-- The text to which a path leads. -/
def textAt (j : Json) (path : List String) : Option String :=
  match j.at? path with
  | some (.string text) => some text
  | _ => none

/-- The paths of the choices on which it depends what is required. -/
def choices : List (List String) :=
  [["kind"], ["driver"], ["operation"], ["tool", "type"]]

/-- The paths at which the tool of an agent requires texts. -/
def toolPaths (j : Json) : List (List String) :=
  match j.textAt ["tool", "type"] with
  | some "httpRequest" => [["tool", "url"]]
  | some "databaseQuery" =>
    [["tool", "selector", "connectionId"], ["tool", "selector", "table"]]
  | _ => []

/-- The paths at which a database step requires texts. -/
def databasePaths (j : Json) : List (List String) :=
  (if j.textAt ["driver"] = some "sqlite" then [["path"]]
    else [["host"], ["database"]]) ++
  (if j.textAt ["operation"] = some "query" then [["query"]] else [["table"]])

/-- The paths at which a written configuration requires texts. -/
def requiredPaths (j : Json) : List (List String) :=
  match j.textAt ["kind"] with
  | some "llm" => [["model"]]
  | some "agent" => ["model"] :: ["systemPrompt"] :: j.toolPaths
  | some "telegram" => [["botToken"], ["chatId"]]
  | some "database" => j.databasePaths
  | some "condition" => [["expression"]]
  | _ => []

/-- Whether the text at a path is missing: all of it is white space. -/
def lacks (j : Json) (path : List String) : Bool :=
  (j.textAt path).any fun text =>
    text.toList.all fun c => c.toNat ∈ Text.whiteSpace

theorem requiredPaths_congr {j k : Json}
    (h : ∀ path ∈ choices, k.textAt path = j.textAt path) :
    k.requiredPaths = j.requiredPaths := by
  rw [requiredPaths, toolPaths, databasePaths, h ["kind"] (by decide),
    h ["driver"] (by decide), h ["operation"] (by decide),
    h ["tool", "type"] (by decide)]
  rfl

end Json

theorem whiteSpace_eq_ranges :
    Text.whiteSpace = Text.blankRanges.flatMap fun range =>
      List.range' range.1 (range.2 + 1 - range.1) := by
  decide

theorem isBlank_eq_decide (c : Char) :
    Text.isBlank c = decide (c.toNat ∈ Text.whiteSpace) := by
  rw [Bool.eq_iff_iff, decide_eq_true_eq, whiteSpace_eq_ranges,
    List.mem_flatMap, Text.isBlank, List.any_eq_true]
  refine exists_congr fun range => and_congr_right fun _ => ?_
  obtain ⟨first, last⟩ := range
  rw [List.mem_range'_1, Bool.and_eq_true, decide_eq_true_eq, decide_eq_true_eq]
  omega

/-! ## The table of requirements -/

/-- A requirement that a path of a written configuration stands for. -/
def Requirement.WrittenAt (j : Json) (r : Requirement) (path : List String) :
    Prop :=
  r.path = dotted path ∧ j.textAt path = some r.value

theorem Tool.requirements_written (c : AgentConfig) :
    List.Forall₂ (Requirement.WrittenAt (NodeConfig.agent c).toJson)
      c.tool.requirements (NodeConfig.agent c).toJson.toolPaths := by
  obtain ⟨model, systemPrompt, tool⟩ := c
  cases tool with
  | none | webSearch => exact .nil
  | httpRequest url => exact .cons ⟨rfl, rfl⟩ .nil
  | databaseQuery selector => exact .cons ⟨rfl, rfl⟩ (.cons ⟨rfl, rfl⟩ .nil)

theorem DatabaseConfig.requirements_written (c : DatabaseConfig) :
    List.Forall₂ (Requirement.WrittenAt (NodeConfig.database c).toJson)
      (c.location ++ [c.target])
      (NodeConfig.database c).toJson.databasePaths := by
  obtain ⟨driver, host, port, database, path, operation, table, query⟩ := c
  -- Whether a port is written decides where the members after it stand.
  refine List.rel_append ?_ ?_
  · cases driver with
    | sqlite => cases port <;> exact .cons ⟨rfl, rfl⟩ .nil
    | postgres | mysql =>
        cases port <;> exact .cons ⟨rfl, rfl⟩ (.cons ⟨rfl, rfl⟩ .nil)
  · cases operation <;> cases port <;> exact .cons ⟨rfl, rfl⟩ .nil

/-- Each requirement is the text at one of the required paths, in their
order. -/
theorem requirements_written (config : NodeConfig) :
    List.Forall₂ (Requirement.WrittenAt config.toJson)
      config.requirements config.toJson.requiredPaths := by
  cases config with
  | trigger | text | output => exact .nil
  | llm c => exact .cons ⟨rfl, rfl⟩ .nil
  | agent c =>
      exact .cons ⟨rfl, rfl⟩ (.cons ⟨rfl, rfl⟩ (Tool.requirements_written c))
  | telegram c => exact .cons ⟨rfl, rfl⟩ (.cons ⟨rfl, rfl⟩ .nil)
  | database c => exact c.requirements_written
  | condition c => exact .cons ⟨rfl, rfl⟩ .nil

theorem isBlankText_of_writtenAt {j : Json} {r : Requirement}
    {path : List String} (h : r.WrittenAt j path) :
    Text.isBlankText r.value = j.lacks path := by
  rw [Json.lacks, h.2, Option.any_some, Text.isBlankText]
  exact congrArg r.value.toList.all (funext isBlank_eq_decide)

theorem textAt_isSome {config : NodeConfig} :
    ∀ path ∈ config.toJson.requiredPaths,
      (config.toJson.textAt path).isSome := by
  have htexts : List.Forall₂ (flip fun path r =>
      (config.toJson.textAt path).isSome ∧ r.path = dotted path)
        config.requirements config.toJson.requiredPaths :=
    (requirements_written config).imp fun r path h =>
      ⟨Option.isSome_of_eq_some h.2, h.1⟩
  exact ((List.forall₂_and_left _ _).mp htexts.flip).1

theorem map_dotted_requiredPaths (config : NodeConfig) :
    config.toJson.requiredPaths.map dotted =
      config.requirements.map (·.path) := by
  rw [← List.forall₂_eq_eq_eq]
  refine (List.rel_map (fun r path h => ?_)
    (requirements_written config)).flip
  exact h.1.symm

theorem nodup_dotted (config : NodeConfig) :
    ((config.toJson.requiredPaths ++ [["temperature"]]).map dotted).Nodup := by
  rw [List.map_append, map_dotted_requiredPaths]
  cases config with
  | agent c =>
      obtain ⟨model, systemPrompt, tool⟩ := c
      cases tool <;> simp [NodeConfig.requirements, Tool.requirements, dotted]
  | database c =>
      obtain ⟨driver, host, port, database, path, operation, table, query⟩ := c
      cases driver <;> cases operation <;>
        simp [NodeConfig.requirements, DatabaseConfig.location,
          DatabaseConfig.target, Driver.isEmbedded, dotted]
  | _ => simp [NodeConfig.requirements, dotted]

end Flowgraph
