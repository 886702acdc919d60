import Flowgraph.Proofs.Reloading

/-!
# The round trip of documents

A document is read back from its text exactly as it was, as long as it holds
nothing that its text cannot tell: no floating-point number, no `null` where an
optional value is meant, and no more containers inside one another than a reader
takes. A document of another version is written all the same and refused when it
is read.
-/

namespace Flowgraph

namespace Document

/-- The free JSON that a document carries along. -/
def free (d : Document) : List Json :=
  d.editorState :: d.graph.nodes.filterMap (·.info)

/-- A document that its text tells in full: no temperatures, no explicit `null`
beside a node, free JSON in canonical form with whole numbers of 64 bits, and no
more containers inside one another than are read. -/
structure Plain (d : Document) : Prop where
  no_temperature : ∀ node ∈ d.graph.nodes, node.config.temperature? = none
  info_ne_null : ∀ node ∈ d.graph.nodes, node.info ≠ some .null
  canonical : ∀ j ∈ d.free, j.canonical = j
  integers : ∀ j ∈ d.free, ∀ n ∈ j.numbers, ∃ k, n = .integer k ∧ Numeral.Fits k
  depth_le : d.toJson.depth ≤ Tree.depthLimit

end Document

theorem Reader.optional_of_ne_null {α : Type} (read : Reader α) {tree : Tree}
    (h : tree ≠ .null) : Reader.optional read tree = some <$> read tree := by
  cases tree with
  | null => exact absurd rfl h
  | _ => rfl

theorem Reader.json_of_integers {j : Json} (hcanonical : j.canonical = j)
    (h : ∀ n ∈ j.numbers, ∃ k, n = .integer k ∧ Numeral.Fits k) :
    Reader.json j.toTree = .ok j := by
  have hreread : j.toTree.json = .ok j := Json.reread_of_integers h
  rw [Reader.json, hreread]
  exact congrArg Except.ok hcanonical

theorem Json.toTree_ne_null {j : Json} (hnull : j ≠ .null)
    (h : ∀ n ∈ j.numbers, ∃ k, n = .integer k ∧ Numeral.Fits k) :
    j.toTree ≠ .null := by
  cases j with
  | null => exact absurd rfl hnull
  | number n =>
      obtain ⟨k, rfl, hk⟩ := h n List.mem_cons_self
      rw [Json.toTree, Json.numberTree_integer hk]
      rintro ⟨⟩
  | _ => rintro ⟨⟩

theorem NodeConfig.withTemperature_self (config : NodeConfig) :
    config.withTemperature config.temperature? = config := by
  cases config <;> rfl

/-- A node that its text tells in full, as the nodes of a plain document are. -/
structure Node.Plain (node : Node) : Prop where
  no_temperature : node.config.temperature? = none
  info_ne_null : node.info ≠ some .null
  canonical : ∀ j ∈ node.info, j.canonical = j
  integers : ∀ j ∈ node.info, ∀ n ∈ j.numbers,
    ∃ k, n = .integer k ∧ Numeral.Fits k

theorem Node.Plain.read_toJson {node : Node} (h : node.Plain) :
    Node.read node.toJson.toTree = .ok node := by
  have htemperature :
      NodeConfig.rereadTemperature node.config.temperature? = .ok none := by
    rw [h.no_temperature]
    rfl
  have hinfo : rereadInfo node.info = .ok node.info := by
    cases hj : node.info with
    | none => rfl
    | some j =>
        have hnull : j ≠ .null := fun hnull =>
          h.info_ne_null (hnull ▸ hj)
        have hint := h.integers j hj
        rw [rereadInfo,
          Reader.optional_of_ne_null _ (Json.toTree_ne_null hnull hint),
          Reader.json_of_integers (h.canonical j hj) hint]
        rfl
  have hself := node.config.withTemperature_self
  rw [h.no_temperature] at hself
  rw [node.read_toJson htemperature hinfo, hself]

theorem Document.Plain.node {d : Document} (h : d.Plain) {node : Node}
    (hnode : node ∈ d.graph.nodes) : node.Plain where
  no_temperature := h.no_temperature node hnode
  info_ne_null := h.info_ne_null node hnode
  canonical j hj := h.canonical j
    (List.mem_cons_of_mem _ (List.mem_filterMap.mpr ⟨node, hnode, hj⟩))
  integers j hj := h.integers j
    (List.mem_cons_of_mem _ (List.mem_filterMap.mpr ⟨node, hnode, hj⟩))

/-- What a plain document keeps of one of its nodes. -/
theorem Node.read_toJson_of_plain {d : Document} (h : d.Plain) {node : Node}
    (hnode : node ∈ d.graph.nodes) :
    Node.read node.toJson.toTree = .ok node :=
  (h.node hnode).read_toJson

/-- Reading a saved document gives the document back, or names its version if
that is not the supported one. -/
theorem saved_document_reads_back (d : Document) (h : d.Plain) :
    Document.ofText d.toText =
      if d.schemaVersion = supportedVersion then .ok d
      else .error (.unsupportedVersion d.schemaVersion) := by
  have hgraph : Graph.read d.graph.toJson.toTree = .ok d.graph :=
    d.graph.read_toJson (List.forall₂_same.mpr fun _ hnode =>
      Node.read_toJson_of_plain h hnode)
  have hstate : Reader.json d.editorState.toTree = .ok d.editorState :=
    Reader.json_of_integers (h.canonical _ List.mem_cons_self)
      (h.integers _ List.mem_cons_self)
  exact d.ofText_toText h.depth_le hgraph hstate

/-- A document with a node of most kinds, escaped characters in its texts and
nested free JSON, in a given version. -/
def Document.mixed (version : UInt32) : Document where
  schemaVersion := version
  exportedAt :=
    ⟨⟨2024, 2, 29, by decide⟩, 23, 59, 60, 120000000, by decide, by decide,
      by decide, by decide⟩
  graph :=
    { nodes :=
        [{ id := "in", config := .trigger },
         { id := "ask", name := "tab\tquote\"", enabled := false
           description := some ""
           info := some (.object [("at", .array [.int (-1), .null])])
           config := .llm { model := "m", systemPrompt := some "\\ \x01" } },
         { id := "look"
           config := .agent
             { model := "m", systemPrompt := "s"
               tool := .databaseQuery { connectionId := "c", table := "t" } } },
         { id := "store"
           config := .database { driver := .mysql, port := some 3306 } }]
      edges :=
        [⟨"e", ⟨"in", none⟩, ⟨"ask", some "in"⟩⟩,
         ⟨"f", ⟨"ask", some "out"⟩, ⟨"look", none⟩⟩] }
  editorState :=
    .object [("a", .int 18446744073709551615),
      ("b", .object [("x", .bool true)])]

theorem saved_document_reads_back_mixed :
    Document.ofText (Document.mixed 1).toText = .ok (Document.mixed 1) ∧
      Document.ofText (Document.mixed 2).toText =
        .error (.unsupportedVersion 2) := by
  have hplain (version : UInt32) : (Document.mixed version).Plain := by
    refine ⟨?_, ?_, ?_, ?_, ?_⟩
    · simp [Document.mixed, NodeConfig.temperature?]
    · simp [Document.mixed]
    · simp only [Document.free, Document.mixed]
      decide
    · have hfree : ∀ j ∈ (Document.mixed version).free, ∀ n ∈ j.numbers,
          n = .integer (-1) ∨ n = .integer 18446744073709551615 := by
        simp only [Document.free, Document.mixed]
        decide
      intro j hj n hn
      rcases hfree j hj n hn with rfl | rfl
      · exact ⟨_, rfl, by decide⟩
      · exact ⟨_, rfl, by decide⟩
    · have hdepth : (Document.mixed version).toJson.depth = 7 := rfl
      rw [hdepth]
      decide
  exact ⟨saved_document_reads_back _ (hplain 1),
    saved_document_reads_back _ (hplain 2)⟩

end Flowgraph
