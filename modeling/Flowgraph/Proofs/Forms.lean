import Flowgraph.Proofs.Records
import Flowgraph.Proofs.RoundTrip

/-!
# Graphs in other forms

A graph that was written by hand, or by another program, need not look like one
that was saved. `Change` lists what may be done to an object of a graph: its
members may change places, those that hold a default may go, unknown ones may
come, and its parts may be changed in turn. Changes are made in front of an
object, which is no restriction, because its members may change places before
and after. A default goes in the form it is written in, which is none either: it
may go before anything in it is changed.

One change leaves what is read as it is, and so do any number of them. The
induction is on the change, so it goes down from the graph to the object that is
changed, and comes back up by the reader of every object on the way. Those of
nodes, edges and endpoints work on the text; what is in a configuration is read
in a second step, from what was put aside while its tag was looked for.

Any text of the changed value will do, and the writer makes two of them. What is
read from those is the value with its numbers settled, which is as much a
changed form of the graph: only members that nobody knows can hold a number that
is read as another one.
-/

namespace Flowgraph

open Flowgraph.Field

/-! ## The changes -/

/-- The kind of a tool. -/
def Tool.kind : Tool → Kind
  | none => .none
  | httpRequest _ => .httpRequest
  | webSearch => .webSearch
  | databaseQuery _ => .databaseQuery

/-- What an object stands for in a graph. -/
inductive Role where
  | graph
  | node
  | edge
  | endpoint
  | config (kind : NodeKind)
  | tool (kind : Tool.Kind)
  | selector

namespace Role

/-- The names that are known in a configuration beside its tag. -/
def contentNames : NodeKind → List String
  | .trigger | .output => []
  | .text => TextConfig.fields.map (·.name)
  | .llm => LlmConfig.fields.map (·.name)
  | .agent => AgentConfig.fields.map (·.name)
  | .telegram => TelegramConfig.fields.map (·.name)
  | .database => DatabaseConfig.fields.map (·.name)
  | .condition => ConditionConfig.fields.map (·.name)

/-- The names that are known in a tool beside its tag. -/
def partNames : Tool.Kind → List String
  | .none | .webSearch => []
  | .httpRequest => ["url"]
  | .databaseQuery => ["selector"]

/-- The names that are known in an object. -/
def names : Role → List String
  | graph => Graph.fields.map (·.name)
  | node => Node.fields.map (·.name)
  | edge => Edge.fields.map (·.name)
  | endpoint => Endpoint.fields.map (·.name)
  | config kind => "kind" :: contentNames kind
  | tool kind => "type" :: partNames kind
  | selector => TableSelector.fields.map (·.name)

/-- Members that say nothing but what would hold without them. -/
def defaults : Role → List (String × Json)
  | graph => [("nodes", .array []), ("edges", .array [])]
  | node => [("name", .string ""), ("enabled", .bool true)]
  | config .text => [("text", .string "")]
  | config .llm => [("model", .string "")]
  | config .agent =>
    [("model", .string ""), ("systemPrompt", .string ""),
     ("tool", .object [("type", .string "none")])]
  | config .telegram => [("botToken", .string ""), ("chatId", .string "")]
  | config .database =>
    [("driver", .string "postgres"), ("host", .string ""),
     ("database", .string ""), ("path", .string ""),
     ("operation", .string "select"), ("table", .string ""),
     ("query", .string "")]
  | config .condition => [("expression", .string "")]
  | tool .httpRequest => [("url", .string "")]
  | tool .databaseQuery =>
    [("selector", .object
      [("connectionId", .string ""), ("table", .string "")])]
  | selector => [("connectionId", .string ""), ("table", .string "")]
  | edge | endpoint | config .trigger | config .output | tool .none
  | tool .webSearch => []

end Role

/-- One change of an object that says the same afterwards: of the object itself,
or of one of its parts. -/
inductive Change : Role → Json → Json → Prop
  | permute {role : Role} {ms ms' : List (String × Json)} (perm : ms.Perm ms') :
      Change role (.object ms) (.object ms')
  | delete {role : Role} {m : String × Json} {ms : List (String × Json)}
      (default : m ∈ role.defaults) :
      Change role (.object (m :: ms)) (.object ms)
  | add {role : Role} {name : String} {value : Json}
      {ms : List (String × Json)} (unknown : name ∉ role.names) :
      Change role (.object ms) (.object ((name, value) :: ms))
  | node {front rest : List Json} {ms : List (String × Json)} {j j' : Json}
      (change : Change .node j j') :
      Change .graph (.object (("nodes", .array (front ++ j :: rest)) :: ms))
        (.object (("nodes", .array (front ++ j' :: rest)) :: ms))
  | edge {front rest : List Json} {ms : List (String × Json)} {j j' : Json}
      (change : Change .edge j j') :
      Change .graph (.object (("edges", .array (front ++ j :: rest)) :: ms))
        (.object (("edges", .array (front ++ j' :: rest)) :: ms))
  | source {ms : List (String × Json)} {j j' : Json}
      (change : Change .endpoint j j') :
      Change .edge (.object (("source", j) :: ms))
        (.object (("source", j') :: ms))
  | target {ms : List (String × Json)} {j j' : Json}
      (change : Change .endpoint j j') :
      Change .edge (.object (("target", j) :: ms))
        (.object (("target", j') :: ms))
  | config {kind : NodeKind} {members ms : List (String × Json)} {j' : Json}
      (tag : ("kind", kind.toJson) ∈ members)
      (change : Change (.config kind) (.object members) j') :
      Change .node (.object (("config", .object members) :: ms))
        (.object (("config", j') :: ms))
  | tool {name : String} {kind : Tool.Kind} {members ms : List (String × Json)}
      {j' : Json} (named : (name, kind) ∈ Tool.kinds)
      (tag : ("type", .string name) ∈ members)
      (change : Change (.tool kind) (.object members) j') :
      Change (.config .agent) (.object (("tool", .object members) :: ms))
        (.object (("tool", j') :: ms))
  | selector {ms : List (String × Json)} {j j' : Json}
      (change : Change .selector j j') :
      Change (.tool .databaseQuery) (.object (("selector", j) :: ms))
        (.object (("selector", j') :: ms))

/-! ## Records -/

section Records

variable {α β : Type} {names : List String} {defaults : List (String × Json)}
  {start : α}

theorem Steady.map {read : Content α}
    (h : Steady names defaults fun j a => read j = .ok a) (f : α → β) :
    Steady names defaults fun j b => f <$> read j = .ok b where
  permute := by
    intro ms ms' b hperm hread
    obtain ⟨a, ha, hb⟩ := map_eq_ok.mp hread
    exact map_eq_ok.mpr ⟨a, h.permute hperm ha, hb⟩
  delete := by
    intro m ms b hm hread
    obtain ⟨a, ha, hb⟩ := map_eq_ok.mp hread
    exact map_eq_ok.mpr ⟨a, h.delete hm ha, hb⟩
  add := by
    intro name value ms b hname hread
    obtain ⟨a, ha, hb⟩ := map_eq_ok.mp hread
    exact map_eq_ok.mpr ⟨a, h.add hname ha, hb⟩

theorem Reader.steady_record {fields : List (Field Tree α)}
    (hfields : Independent fields)
    (hdefaults : defaults.Forall (Idle fields Json.asTree start))
    (wanted : String) :
    Steady (fields.map (·.name)) defaults fun j a =>
      record wanted fields start j.asTree = .ok a :=
  hfields.steady (fun _ _ => record_object wanted)
    (List.forall_iff_forall_mem.mp hdefaults)

theorem Content.steady_record {fields : List (Field Json α)}
    (hfields : Independent fields)
    (hdefaults : defaults.Forall (Idle fields id start)) (wanted : String) :
    Steady (fields.map (·.name)) defaults fun j a =>
      record wanted fields start j = .ok a :=
  hfields.steady (fun _ _ => record_object wanted)
    (List.forall_iff_forall_mem.mp hdefaults)

end Records

/-! Every field of a record has a place of its own, so fields may be read in any
order, and what is written where nothing was given is what the record starts
with. -/

theorem Graph.steady : Steady (Role.names .graph) (Role.defaults .graph)
    fun j graph => read j.asTree = .ok graph := by
  refine Reader.steady_record ⟨by decide, by simp [fields, commutes_of]⟩ ?_ _
  exact ⟨⟨_, rfl, rfl, rfl⟩, ⟨_, rfl, rfl, rfl⟩⟩

theorem Node.steady : Steady (Role.names .node) (Role.defaults .node)
    fun j node => read j.asTree = .ok node := by
  refine Reader.steady_record ⟨by decide, by simp [fields, commutes_of]⟩ ?_ _
  exact ⟨⟨_, rfl, rfl, rfl⟩, ⟨_, rfl, rfl, rfl⟩⟩

theorem Edge.steady : Steady (Role.names .edge) (Role.defaults .edge)
    fun j edge => read j.asTree = .ok edge := by
  refine Reader.steady_record ⟨by decide, by simp [fields, commutes_of]⟩ ?_ _
  exact trivial

theorem Endpoint.steady :
    Steady (Role.names .endpoint) (Role.defaults .endpoint)
      fun j endpoint => read j.asTree = .ok endpoint := by
  refine Reader.steady_record ⟨by decide, by simp [fields, commutes_of]⟩ ?_ _
  exact trivial

theorem TableSelector.steady :
    Steady (Role.names .selector) (Role.defaults .selector)
      fun j selector => ofJson j = .ok selector := by
  refine Content.steady_record ⟨by decide, by simp [fields, commutes_of]⟩ ?_ _
  exact ⟨⟨_, rfl, rfl, rfl⟩, ⟨_, rfl, rfl, rfl⟩⟩

theorem TextConfig.steady :
    Steady (Role.contentNames .text) (Role.defaults (.config .text))
      fun j config => ofJson j = .ok config := by
  refine Content.steady_record ⟨by decide, by simp [fields]⟩ ?_ _
  exact ⟨_, rfl, rfl, rfl⟩

theorem LlmConfig.steady :
    Steady (Role.contentNames .llm) (Role.defaults (.config .llm))
      fun j config => ofJson j = .ok config := by
  refine Content.steady_record ⟨by decide, by simp [fields, commutes_of]⟩ ?_ _
  exact ⟨_, rfl, rfl, rfl⟩

theorem AgentConfig.steady :
    Steady (Role.contentNames .agent) (Role.defaults (.config .agent))
      fun j config => ofJson j = .ok config := by
  refine Content.steady_record ⟨by decide, by simp [fields, commutes_of]⟩ ?_ _
  exact ⟨⟨_, rfl, rfl, rfl⟩, ⟨_, rfl, rfl, rfl⟩, ⟨_, rfl, rfl, rfl⟩⟩

theorem TelegramConfig.steady :
    Steady (Role.contentNames .telegram) (Role.defaults (.config .telegram))
      fun j config => ofJson j = .ok config := by
  refine Content.steady_record ⟨by decide, by simp [fields, commutes_of]⟩ ?_ _
  exact ⟨⟨_, rfl, rfl, rfl⟩, ⟨_, rfl, rfl, rfl⟩⟩

theorem DatabaseConfig.steady :
    Steady (Role.contentNames .database) (Role.defaults (.config .database))
      fun j config => ofJson j = .ok config := by
  refine Content.steady_record ⟨by decide, by simp [fields, commutes_of]⟩ ?_ _
  exact ⟨⟨_, rfl, rfl, rfl⟩, ⟨_, rfl, rfl, rfl⟩, ⟨_, rfl, rfl, rfl⟩,
    ⟨_, rfl, rfl, rfl⟩, ⟨_, rfl, rfl, rfl⟩, ⟨_, rfl, rfl, rfl⟩,
    ⟨_, rfl, rfl, rfl⟩⟩

theorem ConditionConfig.steady :
    Steady (Role.contentNames .condition) (Role.defaults (.config .condition))
      fun j config => ofJson j = .ok config := by
  refine Content.steady_record ⟨by decide, by simp [fields]⟩ ?_ _
  exact ⟨_, rfl, rfl, rfl⟩

/-! ## Tagged values -/

section Tagged

variable {α β : Type} {tag : String} {variant : Json → Except Problem α}
  {ms : List (String × Json)} {choice : α}

theorem Tagged.variant_eq (h : Tagged tag variant ms choice) {j : Json}
    (hj : (tag, j) ∈ ms) : variant j = .ok choice := by
  obtain ⟨i, hi, hchoice⟩ := h
  have hmem : (tag, j) ∈ ms.filter (·.1 = tag) :=
    List.mem_filter.mpr ⟨hj, by simp⟩
  rw [hi, List.mem_singleton] at hmem
  rw [(Prod.mk.inj hmem).2, hchoice]

/-- A tagged value is read in two steps: the object is split at its tag, and the
rest is read as the tag says, so the kind of the value is the one of the tag. -/
theorem kind_and_bind {parts : Except Problem (α × Json)}
    {content : α × Json → Except Problem β} {kind : β → α} {b : β}
    (hparts : ∀ {choice : α} {rest : Json}, parts = .ok (choice, rest) ↔
      Tagged tag variant ms choice ∧ .object (besideTag tag ms) = rest)
    (hkind : ∀ {choice : α} {j : Json} {b : β},
      content (choice, j) = .ok b → kind b = choice) :
    kind b = choice ∧ (parts >>= content) = .ok b ↔
      Tagged tag variant ms choice ∧
      content (choice, .object (besideTag tag ms)) = .ok b := by
  rw [bind_eq_ok]
  constructor
  · rintro ⟨rfl, ⟨choice, rest⟩, hread, hcontent⟩
    obtain ⟨htag, rfl⟩ := hparts.mp hread
    rw [hkind hcontent]
    exact ⟨htag, hcontent⟩
  · rintro ⟨htag, hcontent⟩
    exact ⟨hkind hcontent, _, hparts.mpr ⟨htag, rfl⟩, hcontent⟩

end Tagged

namespace NodeConfig

theorem steady_content (kind : NodeKind) :
    Steady (Role.contentNames kind) (Role.defaults (.config kind))
      fun j config => ofContent (kind, j) = .ok config := by
  cases kind with
  | trigger => exact ⟨fun _ h => h, nofun, fun _ h => h⟩
  | output => exact ⟨fun _ h => h, nofun, fun _ h => h⟩
  | text => exact TextConfig.steady.map _
  | llm => exact LlmConfig.steady.map _
  | agent => exact AgentConfig.steady.map _
  | telegram => exact TelegramConfig.steady.map _
  | database => exact DatabaseConfig.steady.map _
  | condition => exact ConditionConfig.steady.map _

theorem kind_of_content {kind : NodeKind} {j : Json} {config : NodeConfig}
    (h : ofContent (kind, j) = .ok config) : config.kind = kind := by
  cases kind with
  | trigger | output =>
      obtain ⟨-, -, h⟩ := bind_eq_ok.mp h
      cases h
      rfl
  | text | llm | agent | telegram | database | condition =>
      obtain ⟨c, -, rfl⟩ := map_eq_ok.mp h
      rfl

theorem read_object (kind : NodeKind) (ms : List (String × Json))
    (config : NodeConfig) :
    config.kind = kind ∧ read (Json.object ms).asTree = .ok config ↔
      Tagged "kind" (fun j => Reader.variantName
        (.named NodeKind.name NodeKind.all) j.asTree) ms kind ∧
      ofContent (kind, .object (besideTag "kind" ms)) = .ok config :=
  kind_and_bind Reader.tagged_object kind_of_content

end NodeConfig

namespace Tool

theorem steady_content (kind : Kind) :
    Steady (Role.partNames kind) (Role.defaults (.tool kind))
      fun j tool => ofContent (kind, j) = .ok tool := by
  cases kind with
  | none => exact ⟨fun _ h => h, nofun, fun _ h => h⟩
  | webSearch => exact ⟨fun _ h => h, nofun, fun _ h => h⟩
  | httpRequest =>
      have hfields : Independent [Field.of "url" .defaulted Content.string
          fun v (_ : String) => v] := ⟨by decide, by simp⟩
      refine (Content.steady_record hfields ?_ _).map _
      exact ⟨_, rfl, rfl, rfl⟩
  | databaseQuery =>
      have hfields : Independent [Field.of "selector" .defaulted
          TableSelector.ofJson fun v _ => v] := ⟨by decide, by simp⟩
      refine (Content.steady_record hfields ?_ _).map _
      exact ⟨_, rfl, rfl, rfl⟩

theorem kind_of_content {kind : Kind} {j : Json} {tool : Tool}
    (h : ofContent (kind, j) = .ok tool) : tool.kind = kind := by
  cases kind with
  | none | webSearch =>
      obtain ⟨-, -, h⟩ := bind_eq_ok.mp h
      cases h
      rfl
  | httpRequest | databaseQuery =>
      obtain ⟨c, -, rfl⟩ := map_eq_ok.mp h
      rfl

theorem ofJson_object (kind : Kind) (ms : List (String × Json)) (tool : Tool) :
    tool.kind = kind ∧ ofJson (.object ms) = .ok tool ↔
      Tagged "type" (Content.variantName kinds) ms kind ∧
      ofContent (kind, .object (besideTag "type" ms)) = .ok tool :=
  kind_and_bind Content.tagged_object kind_of_content

end Tool

/-! ## What an object is read as -/

namespace Role

/-- What an object is read as. -/
abbrev Value : Role → Type
  | graph => Graph
  | node => Node
  | edge => Edge
  | endpoint => Endpoint
  | config _ => NodeConfig
  | tool _ => Tool
  | selector => TableSelector

/-- An object is read as a value, and one with a tag as one of its kind. -/
def Reads : (role : Role) → Json → role.Value → Prop
  | graph, j, a => Graph.read j.asTree = .ok a
  | node, j, a => Node.read j.asTree = .ok a
  | edge, j, a => Edge.read j.asTree = .ok a
  | endpoint, j, a => Endpoint.read j.asTree = .ok a
  | config kind, j, a => a.kind = kind ∧ NodeConfig.read j.asTree = .ok a
  | tool kind, j, a => a.kind = kind ∧ Tool.ofJson j = .ok a
  | selector, j, a => TableSelector.ofJson j = .ok a

theorem ne_kind_of_default {kind : NodeKind} :
    ∀ m ∈ (config kind).defaults, m.1 ≠ "kind" := by
  cases kind <;> decide

theorem ne_type_of_default {kind : Tool.Kind} :
    ∀ m ∈ (tool kind).defaults, m.1 ≠ "type" := by
  cases kind <;> decide

theorem steady (role : Role) : Steady role.names role.defaults role.Reads := by
  cases role with
  | graph => exact Graph.steady
  | node => exact Node.steady
  | edge => exact Edge.steady
  | endpoint => exact Endpoint.steady
  | config kind =>
      exact (NodeConfig.steady_content kind).tagged ne_kind_of_default
        (NodeConfig.read_object kind)
  | tool kind =>
      exact (Tool.steady_content kind).tagged ne_type_of_default
        (Tool.ofJson_object kind)
  | selector => exact TableSelector.steady

end Role

/-! ## Parts of an object -/

section Parts

variable {τ α β : Type} {j j' : Json}

theorem read_part {name : String} {presence : Presence}
    {read : τ → Except Problem β} {put : β → α → α} {v v' : τ}
    (h : ∀ b, read v = .ok b → read v' = .ok b) (record next : α)
    (hread : (Field.of name presence read put).read v record = .ok next) :
    (Field.of name presence read put).read v' record = .ok next := by
  obtain ⟨b, hb, hnext⟩ := bind_eq_ok.mp hread
  exact bind_eq_ok.mpr ⟨b, h b hb, hnext⟩

theorem map_part {read : Content α} {f : α → β}
    (h : ∀ a, read j = .ok a → read j' = .ok a) (b : β)
    (hread : f <$> read j = .ok b) : f <$> read j' = .ok b := by
  obtain ⟨a, ha, hb⟩ := map_eq_ok.mp hread
  exact map_eq_ok.mpr ⟨a, h a ha, hb⟩

theorem Reader.record_part {fields : List (Field Tree α)} {wanted : String}
    {start : α} {name : String} {field : Field Tree α}
    (hfield : find? fields name = some field)
    (hpart : ∀ record next, field.read j.asTree record = .ok next →
      field.read j'.asTree record = .ok next) {ms : List (String × Json)}
    (a : α) (h : record wanted fields start
      (Json.object ((name, j) :: ms)).asTree = .ok a) :
    record wanted fields start (Json.object ((name, j') :: ms)).asTree =
      .ok a := by
  have hreads : ReadsRecord fields Json.asTree start fun j a =>
      record wanted fields start j.asTree = .ok a :=
    fun _ _ => record_object wanted
  exact hreads.part hfield hpart h

theorem Content.record_part {fields : List (Field Json α)} {wanted : String}
    {start : α} {name : String} {field : Field Json α}
    (hfield : find? fields name = some field)
    (hpart : ∀ record next, field.read j record = .ok next →
      field.read j' record = .ok next) {ms : List (String × Json)}
    (a : α) (h : record wanted fields start (.object ((name, j) :: ms)) =
      .ok a) :
    record wanted fields start (.object ((name, j') :: ms)) = .ok a := by
  have hreads : ReadsRecord fields id start fun j a =>
      record wanted fields start j = .ok a :=
    fun _ _ => record_object wanted
  exact hreads.part hfield hpart h

theorem mapM_itemsAsTrees {read : Reader α} {items : List Json}
    {values : List α} :
    (Json.itemsAsTrees items).mapM read = .ok values ↔
      List.Forall₂ (fun j a => read j.asTree = .ok a) items values := by
  induction items generalizing values with
  | nil =>
      rw [List.forall₂_nil_left_iff]
      exact ⟨fun h => (Except.ok.inj h).symm, fun h => h ▸ rfl⟩
  | cons j rest ih =>
      rw [Json.itemsAsTrees, List.mapM_cons, bind_eq_ok,
        List.forall₂_cons_left_iff]
      refine exists_congr fun a => ?_
      rw [bind_eq_ok]
      constructor
      · rintro ⟨ha, as, has, h⟩
        exact ⟨as, ha, ih.mp has, (Except.ok.inj h).symm⟩
      · rintro ⟨as, ha, has, rfl⟩
        exact ⟨ha, as, ih.mpr has, rfl⟩

theorem Reader.list_part {read : Reader α} {front rest : List Json}
    (h : ∀ a, read j.asTree = .ok a → read j'.asTree = .ok a)
    (values : List α)
    (hread : Reader.list read (Json.array (front ++ j :: rest)).asTree =
      .ok values) :
    Reader.list read (Json.array (front ++ j' :: rest)).asTree =
      .ok values := by
  have hlist (items : List Json) : Reader.list read (Json.array items).asTree =
      (Json.itemsAsTrees items).mapM read := bind_pure _
  rw [hlist, mapM_itemsAsTrees] at hread ⊢
  induction front generalizing values with
  | nil =>
      cases hread with
      | cons hj hrest => exact .cons (h _ hj) hrest
  | cons i front ih =>
      cases hread with
      | cons hi hrest => exact .cons hi (ih _ hrest)

end Parts

theorem NodeConfig.kind_of_tag {kind : NodeKind} {ms : List (String × Json)}
    (htag : ("kind", kind.toJson) ∈ ms) {config : NodeConfig}
    (h : read (Json.object ms).asTree = .ok config) : config.kind = kind := by
  have hkind := ((read_object _ ms config).mp ⟨rfl, h⟩).1.variant_eq htag
  exact Except.ok.inj (hkind.symm.trans kind.variantNamed_name)

theorem Tool.kind_of_tag {name : String} {kind : Kind}
    (hnamed : (name, kind) ∈ kinds) {ms : List (String × Json)}
    (htag : ("type", .string name) ∈ ms) {tool : Tool}
    (h : ofJson (.object ms) = .ok tool) : tool.kind = kind := by
  have hkind := ((ofJson_object _ ms tool).mp ⟨rfl, h⟩).1.variant_eq htag
  have hname : ∀ k ∈ kinds, variantNamed kinds k.1 = .ok k.2 := by decide
  exact Except.ok.inj (hkind.symm.trans (hname _ hnamed))

theorem AgentConfig.tool_part {j j' : Json}
    (h : ∀ tool, Tool.ofJson j = .ok tool → Tool.ofJson j' = .ok tool)
    (ms : List (String × Json)) (config : NodeConfig)
    (hread : NodeConfig.ofContent (.agent, .object (("tool", j) :: ms)) =
      .ok config) :
    NodeConfig.ofContent (.agent, .object (("tool", j') :: ms)) =
      .ok config := by
  exact map_part (Content.record_part rfl (read_part h)) config hread

theorem Tool.selector_part {j j' : Json}
    (h : ∀ selector, TableSelector.ofJson j = .ok selector →
      TableSelector.ofJson j' = .ok selector)
    (ms : List (String × Json)) (tool : Tool)
    (hread : ofContent (.databaseQuery, .object (("selector", j) :: ms)) =
      .ok tool) :
    ofContent (.databaseQuery, .object (("selector", j') :: ms)) =
      .ok tool := by
  exact map_part (Content.record_part rfl (read_part h)) tool hread

/-- A change of an object does not change what it is read as. -/
theorem Change.keeps {role : Role} {j j' : Json} (h : Change role j j')
    (a : role.Value) (hread : role.Reads j a) : role.Reads j' a := by
  induction h with
  | @permute role _ _ perm => exact role.steady.permute perm hread
  | @delete role _ _ default => exact role.steady.delete default hread
  | @add role _ _ _ unknown => exact role.steady.add unknown hread
  | node _ ih | edge _ ih =>
      exact Reader.record_part rfl (read_part (Reader.list_part ih)) a hread
  | source _ ih | target _ ih =>
      exact Reader.record_part rfl (read_part ih) a hread
  | config tag _ ih =>
      refine Reader.record_part rfl (read_part fun config hconfig => ?_) a hread
      -- the change is one for the kind of the tag, so that has to be the kind
      exact (ih config ⟨NodeConfig.kind_of_tag tag hconfig, hconfig⟩).2
  | tool named tag _ ih =>
      refine part_beside
        (fun j config => NodeConfig.ofContent (.agent, j) = .ok config)
        (NodeConfig.read_object .agent) (by decide)
        (AgentConfig.tool_part fun tool htool => ?_) hread
      exact (ih tool ⟨Tool.kind_of_tag named tag htool, htool⟩).2
  | selector _ ih =>
      exact part_beside
        (fun j tool => Tool.ofContent (.databaseQuery, j) = .ok tool)
        (Tool.ofJson_object .databaseQuery) (by decide)
        (Tool.selector_part ih) hread

/-! ## A saved graph -/

theorem Tool.whole_toJson (tool : Tool) : tool.toJson.Whole := by
  cases tool <;> simp [toJson, TableSelector.toJson]

theorem NodeConfig.whole_toJson {config : NodeConfig}
    (h : config.temperature? = none) : config.toJson.Whole := by
  rw [toJson, Json.whole_object, List.forall_mem_cons]
  refine ⟨Json.whole_string _, ?_⟩
  cases config with
  | trigger | output => exact List.forall_mem_nil _
  | text c => simp [members, TextConfig.members]
  | llm c =>
      have hnone : c.temperature = none := h
      simp [members, LlmConfig.members, hnone, List.forall_mem_append,
        -List.mem_append, -Prod.forall]
  | agent c => simp [members, AgentConfig.members, c.tool.whole_toJson]
  | telegram c => simp [members, TelegramConfig.members, -Prod.forall]
  | database c =>
      simp [members, DatabaseConfig.members, List.forall_mem_append,
        -List.mem_append, -Prod.forall]
  | condition c => simp [members, ConditionConfig.members]

theorem Endpoint.whole_toJson (endpoint : Endpoint) :
    endpoint.toJson.Whole := by
  simp [toJson, -Prod.forall]

theorem Edge.whole_toJson (edge : Edge) : edge.toJson.Whole := by
  simp [toJson, edge.source.whole_toJson, edge.target.whole_toJson]

theorem Node.Plain.whole_toJson {node : Node} (h : node.Plain) :
    node.toJson.Whole := by
  have hinfo : ∀ j ∈ node.info, j.Whole := h.integers
  have hconfig := NodeConfig.whole_toJson h.no_temperature
  rw [toJson, Json.whole_object]
  simpa [List.forall_mem_append, hconfig, -List.mem_append, -Prod.forall] using
    hinfo

theorem Graph.whole_toJson {graph : Graph}
    (h : ∀ node ∈ graph.nodes, node.Plain) : graph.toJson.Whole := by
  rw [toJson, Json.whole_object]
  simpa [-Prod.forall, Edge.whole_toJson] using
    fun node hnode => (h node hnode).whole_toJson

/-- A saved graph is read back. -/
theorem Graph.read_asTree {graph : Graph}
    (h : ∀ node ∈ graph.nodes, node.Plain) :
    read graph.toJson.asTree = .ok graph := by
  rw [← Json.toTree_eq_asTree (whole_toJson h)]
  exact graph.read_toJson
    (List.forall₂_same.mpr fun node hnode => (h node hnode).read_toJson)

theorem Graph.read_changed {graph : Graph} {j j' : Json}
    (hchanges : Relation.ReflTransGen (Change .graph) j j')
    (hread : read j.asTree = .ok graph) : read j'.asTree = .ok graph := by
  induction hchanges with
  | refl => exact hread
  | tail _ hchange ih => exact hchange.keeps graph ih

/-! ## Written again

A default holds no number, a tag is a string, and names stay as they are, so
settling the numbers before and after a change leaves the same change. -/

theorem Role.settled_default {role : Role} :
    ∀ m ∈ role.defaults, m.2.settled = m.2 := by
  have hwhole : ∀ m ∈ role.defaults, m.2.Whole := by
    cases role with
    | config kind => cases kind <;> simp [defaults]
    | tool kind => cases kind <;> simp [defaults]
    | _ => simp [defaults]
  exact fun m hm => Json.settled_eq_self (hwhole m hm)

theorem Change.settled {role : Role} {j j' : Json} (h : Change role j j') :
    Change role j.settled j'.settled := by
  -- A tag keeps its place and its text.
  have htag {ms : List (String × Json)} {name text : String}
      (hmem : (name, .string text) ∈ ms) :
      (name, .string text) ∈ ms.map fun m => (m.1, m.2.settled) :=
    List.mem_map.mpr ⟨_, hmem, rfl⟩
  induction h with
  | permute perm =>
      rw [Json.settled_object, Json.settled_object]
      exact .permute (perm.map _)
  | @delete role m _ default =>
      simp only [Json.settled_object, List.map_cons,
        Role.settled_default m default]
      exact .delete default
  | add unknown =>
      simp only [Json.settled_object, List.map_cons]
      exact .add unknown
  | node _ ih =>
      simp only [Json.settled_object, Json.settled_array, List.map_append,
        List.map_cons]
      exact .node ih
  | edge _ ih =>
      simp only [Json.settled_object, Json.settled_array, List.map_append,
        List.map_cons]
      exact .edge ih
  | source _ ih =>
      simp only [Json.settled_object, List.map_cons]
      exact .source ih
  | target _ ih =>
      simp only [Json.settled_object, List.map_cons]
      exact .target ih
  | config tag _ ih =>
      simp only [Json.settled_object, List.map_cons] at ih ⊢
      exact .config (htag tag) ih
  | tool named tag _ ih =>
      simp only [Json.settled_object, List.map_cons] at ih ⊢
      exact .tool named (htag tag) ih
  | selector _ ih =>
      simp only [Json.settled_object, List.map_cons]
      exact .selector ih

/-- Whatever is done to a saved graph by changes that say the same, the graph is
what is read from any text in which the outcome stands, and from the texts it is
written as if it is not nested too deeply and its whole numbers fit. -/
theorem graph_read_from_any_form {graph : Graph}
    (hplain : ∀ node ∈ graph.nodes, node.Plain) {j : Json}
    (hchanges : Relation.ReflTransGen (Change .graph) graph.toJson j) :
    (∀ text, j.StandsIn text → Graph.read.ofText text = .ok graph) ∧
    (j.Within 127 → Graph.read.ofText j.pretty = .ok graph ∧
      Graph.read.ofText j.compact = .ok graph) := by
  have hread := Graph.read_asTree hplain
  refine ⟨fun text htext => ?_, fun hwithin => ?_⟩
  · rw [htext.ofText]
    exact Graph.read_changed hchanges hread
  · have hsettled : Relation.ReflTransGen (Change .graph)
        graph.toJson.settled j.settled :=
      hchanges.lift Json.settled fun _ _ h => h.settled
    rw [Json.settled_eq_self (Graph.whole_toJson hplain)] at hsettled
    obtain ⟨hpretty, hcompact⟩ := Json.standsIn_written hwithin
    rw [hpretty.ofText, hcompact.ofText]
    exact ⟨Graph.read_changed hsettled hread, Graph.read_changed hsettled hread⟩

/-- A graph with one text step, which has no name. -/
def Graph.greeting : Graph where
  nodes := [{ id := "a", config := .text { text := "hi" } }]

/-- The greeting with the tag of the configuration in the last place and a
member that there is no field for, and without the name of the node and the
edges. -/
def Json.bulkyGreeting : Json :=
  .object [("nodes", .array [.object
    [("config", .object
      [("size", .array
        [.number (.double ⟨false, BinaryFormat.double.nearest 1 2⟩), .null]),
       ("text", .string "hi"), ("kind", .string "text")]),
     ("id", .string "a"), ("enabled", .bool true)]])]

theorem graph_read_from_any_form_greeting :
    Graph.read.ofText ("\x7b \"nodes\": [\x7b \"config\": \x7b" ++
      "\"size\": [5e-1, null], \"text\": \"\\u0068i\", " ++
      "\"kind\": \"text\"\x7d, " ++
      "\"id\": \"a\", \"enabled\": true\x7d]\x7d") = .ok Graph.greeting ∧
    Graph.read.ofText Json.bulkyGreeting.pretty = .ok Graph.greeting ∧
    Graph.read.ofText Json.bulkyGreeting.compact = .ok Graph.greeting := by
  have htag : ("kind", NodeKind.text.toJson) ∈
      [("kind", Json.string "text"), ("text", .string "hi")] := by decide
  have htag' : ("kind", NodeKind.text.toJson) ∈
      [("text", Json.string "hi"), ("kind", .string "text")] := by decide
  have hnode : Change .node
      (Node.toJson { id := "a", config := .text { text := "hi" } })
      (.object
        [("name", .string ""),
         ("config", .object [("kind", .string "text"), ("text", .string "hi")]),
         ("id", .string "a"), ("enabled", .bool true)]) :=
    .permute (by decide)
  have hchanges : Relation.ReflTransGen (Change .graph) Graph.greeting.toJson
      Json.bulkyGreeting := by
    refine .head (.permute (List.Perm.swap _ _ [])) ?_
    refine .head (.delete (by decide)) ?_
    refine .head (@Change.node [] [] _ _ _ hnode) ?_
    refine .head (@Change.node [] [] _ _ _ (.delete (by decide))) ?_
    refine .head (@Change.node [] [] _ _ _
      (.config htag (.permute (List.Perm.swap _ _ [])))) ?_
    exact .single (@Change.node [] [] _ _ _ (.config htag' (.add (by decide))))
  have hplain : ∀ node ∈ Graph.greeting.nodes, node.Plain :=
    List.forall_mem_singleton.mpr ⟨rfl, nofun, nofun, nofun⟩
  obtain ⟨htext, hwritten⟩ := graph_read_from_any_form hplain hchanges
  refine ⟨htext _ (by decide +kernel), hwritten ⟨by decide, ?_⟩⟩
  exact List.forall_mem_singleton.mpr trivial

end Flowgraph
