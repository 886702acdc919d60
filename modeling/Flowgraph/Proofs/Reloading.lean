import Flowgraph.Proofs.Moments
import Flowgraph.Proofs.Reading

/-!
# Documents read back

The written form of every part of a document is read back as that part, from
the selectors and tools inside the configurations up to the document. Two
things are not written as they are: the temperature of a language model, which
is a floating-point number, and the free JSON of nodes and of the editor. What
these are read as is left open here. The rest of a document depends on them only
through `rereadTemperature`, `rereadInfo` and the reader of free JSON.
-/

namespace Flowgraph

open Flowgraph.Field

/-! ## Names -/

theorem NodeKind.variantNamed_name (kind : NodeKind) :
    variantNamed (.named NodeKind.name NodeKind.all) kind.name = .ok kind := by
  cases kind <;> rfl

theorem Driver.choice_name (driver : Driver) :
    Content.choice (.named Driver.name Driver.all) (.string driver.name) =
      .ok driver := by
  cases driver <;> rfl

theorem Operation.choice_name (operation : Operation) :
    Content.choice (.named Operation.name Operation.all)
      (.string operation.name) = .ok operation := by
  cases operation <;> rfl

/-! ## Configurations -/

theorem Tool.ofJson_toJson (tool : Tool) : ofJson tool.toJson = .ok tool := by
  cases tool <;> rfl

theorem TextConfig.ofJson_members (config : TextConfig) :
    ofJson (.object config.members) = .ok config := rfl

/-- What free JSON makes of a temperature, if one is written, is put in its
place. -/
theorem LlmConfig.ofJson_members (config : LlmConfig) {written : Option Json}
    {t : Option Single}
    (hsome : ∀ j, written = some j →
      Content.optional Content.single j = .ok t)
    (hnone : written = none → t = none) :
    ofJson (.object (("model", .string config.model) ::
        Json.member? "systemPrompt" .string config.systemPrompt ++
        Json.member? "temperature" id written)) =
      .ok { config with temperature := t } := by
  obtain ⟨model, systemPrompt, temperature⟩ := config
  refine Content.record_of_fills _ (.cons rfl rfl
    (Fills.append (b := ⟨model, systemPrompt, none⟩) ?_ ?_)) ?_ ?_
  · refine fills_member? (c := systemPrompt) rfl ?_ ?_ rfl
    · rintro _ rfl
      rfl
    · rintro rfl
      rfl
  · refine fills_member? (c := t) rfl hsome ?_ rfl
    intro h
    rw [hnone h]
  · cases systemPrompt <;> cases written <;> simp [Json.member?]
  · cases systemPrompt <;> cases written <;> rfl

theorem AgentConfig.ofJson_members (config : AgentConfig) :
    ofJson (.object config.members) = .ok config :=
  Content.record_of_fills _ (.cons rfl rfl (.cons rfl rfl
    (.cons rfl (read_of config.tool.ofJson_toJson _) .nil)))
    (by simp [members]) rfl

theorem TelegramConfig.ofJson_members (config : TelegramConfig) :
    ofJson (.object config.members) = .ok config := by
  obtain ⟨botToken, chatId, messageTemplate⟩ := config
  refine Content.record_of_fills _ (.cons rfl rfl (.cons rfl rfl ?_)) ?_ ?_
  · refine fills_member? (c := messageTemplate) rfl ?_ ?_ rfl
    · rintro _ rfl
      rfl
    · rintro rfl
      rfl
  · cases messageTemplate <;> simp [members, Json.member?]
  · cases messageTemplate <;> rfl

theorem Numeral.fits_toNat {bits : Nat} (hbits : bits ≤ 64)
    (word : BitVec bits) :
    Fits (word.toNat : Int) := by
  have hlt : word.toNat < 2 ^ 64 :=
    Nat.lt_of_lt_of_le word.isLt (Nat.pow_le_pow_right (by decide) hbits)
  refine ⟨?_, ?_⟩
  · show -(9223372036854775808 : Int) ≤ _
    omega
  · show _ < (18446744073709551616 : Int)
    omega

theorem Json.toTree_nat {bits : Nat} (hbits : bits ≤ 64) (word : BitVec bits) :
    (nat word.toNat).toTree = .number (.ok (.integer word.toNat)) :=
  numberTree_integer (Numeral.fits_toNat hbits word)

theorem Content.unsigned_toNat {bits : Nat} (word : BitVec bits) :
    Content.unsigned bits (.nat word.toNat) = .ok word := by
  simp [Json.nat, Json.int, Content.unsigned]

theorem DatabaseConfig.ofJson_members (config : DatabaseConfig) :
    ofJson (.object config.members) = .ok config := by
  obtain ⟨driver, host, port, database, path, operation, table, query⟩ := config
  refine Content.record_of_fills _ (.cons rfl (read_of driver.choice_name _)
    (.cons rfl rfl (Fills.append
      (b := ⟨driver, host, port, "", "", .select, "", ""⟩) ?_
      (.cons rfl rfl (.cons rfl rfl
        (.cons rfl (read_of operation.choice_name _)
        (.cons rfl rfl (.cons rfl rfl .nil)))))))) ?_ ?_
  · refine fills_member? (c := port.map (·.toBitVec)) rfl ?_ ?_ ?_
    · rintro n rfl
      have hread := Content.unsigned_toNat n.toBitVec
      show some <$> Content.unsigned 16 (.nat n.toBitVec.toNat) = _
      rw [hread]
      rfl
    · rintro rfl
      rfl
    · cases port <;> rfl
  · cases port <;> simp [members, Json.member?]
  · cases port <;> rfl

theorem ConditionConfig.ofJson_members (config : ConditionConfig) :
    ofJson (.object config.members) = .ok config := rfl

namespace NodeConfig

/-- The temperature of a configuration, if it has one. -/
def temperature? : NodeConfig → Option Single
  | llm c => c.temperature
  | _ => none

/-- The configuration with another temperature, if it can have one. -/
def withTemperature (t : Option Single) : NodeConfig → NodeConfig
  | llm c => .llm { c with temperature := t }
  | config => config

/-- What the written form of a temperature is read as. -/
def rereadTemperature : Option Single → Except Problem (Option Single)
  | none => .ok none
  | some x => do
    let j ← Problem.lift (Json.single x).reread
    Content.optional Content.single j

theorem ne_kind_of_mem {config : NodeConfig} :
    ∀ m ∈ config.members, m.1 ≠ "kind" := by
  cases config with
  | trigger | output => nofun
  | text c => simp [members, TextConfig.members]
  | llm c =>
      obtain ⟨model, systemPrompt, temperature⟩ := c
      cases systemPrompt <;> cases temperature <;>
        simp [members, LlmConfig.members, Json.member?]
  | agent c => simp [members, AgentConfig.members]
  | telegram c =>
      obtain ⟨botToken, chatId, messageTemplate⟩ := c
      cases messageTemplate <;>
        simp [members, TelegramConfig.members, Json.member?]
  | database c =>
      obtain ⟨driver, host, port, database, path, operation, table, query⟩ := c
      cases port <;> simp [members, DatabaseConfig.members, Json.member?]
  | condition c => simp [members, ConditionConfig.members]

theorem read_of_members {config config' : NodeConfig}
    {ms : List (String × Json)} (hms : Json.RereadMembers config.members ms)
    (hcontent : ofContent (config.kind, .object ms) = .ok config') :
    read config.toJson.toTree = .ok config' := by
  rw [read, toJson, Reader.tagged_of _ config.kind.variantNamed_name hms
    ne_kind_of_mem]
  exact hcontent

theorem reread_tool (tool : Tool) : tool.toJson.reread = .ok tool.toJson := by
  cases tool <;> rfl

/-- Texts are read as they were written. -/
theorem rereadMembers_text? (name : String) (text : Option String) :
    Json.RereadMembers (Json.member? name .string text)
      (Json.member? name .string text) := by
  cases text with
  | none => exact .nil
  | some s => exact .cons ⟨rfl, rfl⟩ .nil

/-- A temperature that is read at all is read by way of some free JSON. -/
theorem exists_written {temperature t : Option Single}
    (h : rereadTemperature temperature = .ok t) :
    ∃ written : Option Json,
      Json.RereadMembers (Json.member? "temperature" Json.single temperature)
        (Json.member? "temperature" id written) ∧
      (∀ j, written = some j → Content.optional Content.single j = .ok t) ∧
      (written = none → t = none) := by
  cases temperature with
  | none =>
      obtain rfl := Except.ok.inj h
      exact ⟨none, .nil, nofun, fun _ => rfl⟩
  | some x =>
      obtain ⟨j, hj, ht⟩ := bind_eq_ok.mp h
      have hreread : (Json.single x).reread = .ok j := by
        cases hx : (Json.single x).reread with
        | error fault =>
            rw [hx] at hj
            cases hj
        | ok i =>
            rw [hx] at hj
            rw [Except.ok.inj hj]
      refine ⟨some j, .cons ⟨rfl, hreread⟩ .nil, fun i hi => ?_, nofun⟩
      rw [← Option.some.inj hi]
      exact ht

/-- A configuration is read back with its temperature as it was read. -/
theorem read_toJson (config : NodeConfig) {t : Option Single}
    (h : rereadTemperature config.temperature? = .ok t) :
    read config.toJson.toTree = .ok (config.withTemperature t) := by
  cases config with
  | trigger | output => exact read_of_members .nil rfl
  | text c =>
      refine read_of_members (.cons ⟨rfl, rfl⟩ .nil) ?_
      exact congrArg (NodeConfig.text <$> ·) c.ofJson_members
  | condition c =>
      refine read_of_members (.cons ⟨rfl, rfl⟩ .nil) ?_
      exact congrArg (NodeConfig.condition <$> ·) c.ofJson_members
  | llm c =>
      obtain ⟨written, hwritten, hsome, hnone⟩ := exists_written h
      refine read_of_members (.cons ⟨rfl, rfl⟩ (List.rel_append
        (rereadMembers_text? "systemPrompt" c.systemPrompt) hwritten)) ?_
      exact congrArg (NodeConfig.llm <$> ·) (c.ofJson_members hsome hnone)
  | agent c =>
      refine read_of_members (.cons ⟨rfl, rfl⟩ (.cons ⟨rfl, rfl⟩
        (.cons ⟨rfl, reread_tool c.tool⟩ .nil))) ?_
      exact congrArg (NodeConfig.agent <$> ·) c.ofJson_members
  | telegram c =>
      refine read_of_members (.cons ⟨rfl, rfl⟩ (.cons ⟨rfl, rfl⟩
        (rereadMembers_text? "messageTemplate" c.messageTemplate))) ?_
      exact congrArg (NodeConfig.telegram <$> ·) c.ofJson_members
  | database c =>
      have hport : Json.RereadMembers
          (Json.member? "port" (fun n => .nat n.toNat) c.port)
          (Json.member? "port" (fun n => .nat n.toNat) c.port) := by
        cases c.port with
        | none => exact .nil
        | some n =>
            refine .cons ⟨rfl, ?_⟩ .nil
            have htree := Json.toTree_nat (by decide) n.toBitVec
            exact congrArg Tree.json htree
      refine read_of_members (.cons ⟨rfl, rfl⟩ (.cons ⟨rfl, rfl⟩
        (List.rel_append hport (.cons ⟨rfl, rfl⟩ (.cons ⟨rfl, rfl⟩
          (.cons ⟨rfl, rfl⟩ (.cons ⟨rfl, rfl⟩ (.cons ⟨rfl, rfl⟩ .nil)))))))) ?_
      exact congrArg (NodeConfig.database <$> ·) c.ofJson_members

end NodeConfig

/-! ## Graphs -/

theorem Endpoint.read_toJson (endpoint : Endpoint) :
    read endpoint.toJson.toTree = .ok endpoint := by
  obtain ⟨nodeId, portId⟩ := endpoint
  refine Reader.record_of_fills _ (.cons rfl rfl ?_) ?_ ?_
  · refine fills_member? (c := portId) rfl ?_ ?_ rfl
    · rintro _ rfl
      rfl
    · rintro rfl
      rfl
  · cases portId <;> simp [Json.member?]
  · cases portId <;> rfl

theorem Edge.read_toJson (edge : Edge) : read edge.toJson.toTree = .ok edge :=
  Reader.record_of_fills _ (.cons rfl rfl
    (.cons rfl (read_of edge.source.read_toJson _)
      (.cons rfl (read_of edge.target.read_toJson _) .nil)))
    (by simp) rfl

namespace Node

/-- What the written form of the free JSON of a node is read as. -/
def rereadInfo : Option Json → Except Problem (Option Json)
  | none => .ok none
  | some j => Reader.optional Reader.json j.toTree

/-- A node is read back with its temperature and its free JSON as they were
read. -/
theorem read_toJson (node : Node) {t : Option Single} {info : Option Json}
    (htemperature :
      NodeConfig.rereadTemperature node.config.temperature? = .ok t)
    (hinfo : rereadInfo node.info = .ok info) :
    read node.toJson.toTree =
      .ok { node with info, config := node.config.withTemperature t } := by
  obtain ⟨id, name, enabled, description, written, config⟩ := node
  have hdescription : Fills fields Json.toTree
      (Json.member? "description" .string description)
      ⟨id, name, enabled, none, none, .trigger⟩
      ⟨id, name, enabled, description, none, .trigger⟩ := by
    refine fills_member? (c := description) rfl ?_ ?_ rfl
    · rintro _ rfl
      rfl
    · rintro rfl
      rfl
  have hmeta : Fills fields Json.toTree
      (Json.member? "meta" (fun j => j) written)
      ⟨id, name, enabled, description, none, .trigger⟩
      ⟨id, name, enabled, description, info, .trigger⟩ := by
    refine fills_member? (c := info) rfl ?_ ?_ rfl
    · rintro _ rfl
      exact hinfo
    · rintro rfl
      obtain rfl := Except.ok.inj hinfo
      rfl
  refine Reader.record_of_fills _ (.cons rfl rfl (.cons rfl rfl
    (.cons rfl rfl ((hdescription.append hmeta).append
      (.cons rfl (read_of (config.read_toJson htemperature) _) .nil))))) ?_ ?_
  · cases description <;> cases written <;> simp [Json.member?]
  · cases description <;> cases written <;> rfl

end Node

/-- A graph is read back if its nodes are, whatever they are read as. -/
theorem Graph.read_toJson (graph : Graph) {nodes : List Node}
    (h : List.Forall₂
      (fun node node' => Node.read node.toJson.toTree = .ok node')
      graph.nodes nodes) :
    read graph.toJson.toTree = .ok { graph with nodes } := by
  have hnodes : Reader.list Node.read
      (Json.array (graph.nodes.map Node.toJson)).toTree = .ok nodes :=
    Reader.list_of (List.forall₂_map_left_iff.mpr h)
  have hedges : Reader.list Edge.read
      (Json.array (graph.edges.map Edge.toJson)).toTree = .ok graph.edges :=
    Reader.list_of (List.forall₂_map_left_iff.mpr
      (List.forall₂_same.mpr fun edge _ => edge.read_toJson))
  exact Reader.record_of_fills _ (.cons rfl (read_of hnodes _)
    (.cons rfl (read_of hedges _) .nil)) (by simp) rfl

/-! ## Documents -/

theorem Reader.unsigned_toNat {bits : Nat} (hbits : bits ≤ 64)
    (word : BitVec bits) :
    Reader.unsigned bits (Json.nat word.toNat).toTree = .ok word := by
  rw [Json.toTree_nat hbits]
  simp [Reader.unsigned]

theorem Moment.read_toJson (m : Moment) :
    Reader.moment m.toJson.toTree = .ok m := by
  simp [Moment.toJson, Json.toTree, Reader.moment, Problem.lift, read_write,
    bind, Except.bind, pure, Except.pure]

namespace Document

theorem read_toJson (d : Document) {graph : Graph} {editorState : Json}
    (hgraph : Graph.read d.graph.toJson.toTree = .ok graph)
    (hstate : Reader.json d.editorState.toTree = .ok editorState) :
    read d.toJson.toTree = .ok { d with graph, editorState } := by
  have hversion : Reader.unsigned 32
      (Json.nat d.schemaVersion.toNat).toTree = .ok d.schemaVersion.toBitVec :=
    Reader.unsigned_toNat (by decide) d.schemaVersion.toBitVec
  exact Reader.record_of_fills _ (.cons rfl (read_of hversion _)
    (.cons rfl (read_of d.exportedAt.read_toJson _)
      (.cons rfl (read_of hgraph _) (.cons rfl (read_of hstate _) .nil))))
    (by simp) rfl

/-- A document that is not too deep is read back part by part, unless its
version is another one. -/
theorem ofText_toText (d : Document) (hdepth : d.toJson.depth ≤ Tree.depthLimit)
    {graph : Graph} {editorState : Json}
    (hgraph : Graph.read d.graph.toJson.toTree = .ok graph)
    (hstate : Reader.json d.editorState.toTree = .ok editorState) :
    ofText d.toText =
      if d.schemaVersion = supportedVersion then
        .ok { d with graph, editorState }
      else .error (.unsupportedVersion d.schemaVersion) := by
  have htree := Tree.ofText_pretty hdepth
  have hread := d.read_toJson hgraph hstate
  have htext : read.ofText d.toText = .ok { d with graph, editorState } := by
    simp [Reader.ofText, toText, htree, hread, bind, Except.bind, pure,
      Except.pure]
  rw [ofText, htext]

end Document

end Flowgraph
