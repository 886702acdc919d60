import Flowgraph.Proofs.Checks
import Flowgraph.Proofs.Loading

/-!
# The verdict on a loaded document

Only the checks of fields look into the configuration of a node: every other
check, and planning, sees no more of it than its id and its kind. Loading a
saved document changes neither, so its report can differ from the one of the
document that was saved in issues of fields alone.

There it does differ when a temperature was infinite. Such a temperature is out
of range and reported; it is written as `null`, and what is loaded has no
temperature that could be reported. With finite temperatures, in range or not,
nothing is lost and the reports are equal.
-/

namespace Flowgraph

/-! ## What the checks of edges see -/

/-- Whether a change to nodes leaves alone what edges can see of them. -/
structure KeepsOutline (f : Node → Node) : Prop where
  id : ∀ node, (f node).id = node.id
  kind : ∀ node, (f node).kind = node.kind

namespace KeepsOutline

variable {f : Node → Node} (h : KeepsOutline f) (nodes : List Node)
  (edges : List Edge) (edge : Edge)
include h

theorem ids : (nodes.map f).map (·.id) = nodes.map (·.id) := by
  rw [List.map_map]
  exact List.map_congr_left fun node _ => h.id node

theorem nodeIds : Flowgraph.nodeIds (nodes.map f) = Flowgraph.nodeIds nodes :=
  congrArg List.eraseDups (h.ids nodes)

theorem findNode? (id : String) : Flowgraph.findNode? (nodes.map f) id =
    (Flowgraph.findNode? nodes id).map f := by
  rw [Flowgraph.findNode?, List.find?_map]
  simp only [Function.comp_def, h.id]
  rfl

theorem firstNodes : Flowgraph.firstNodes (nodes.map f) =
    (Flowgraph.firstNodes nodes).map f := by
  rw [Flowgraph.firstNodes, h.nodeIds, Flowgraph.firstNodes, List.map_filterMap]
  exact List.filterMap_congr fun id _ => h.findNode? nodes id

theorem connecting : Flowgraph.connecting (nodes.map f) edges =
    Flowgraph.connecting nodes edges := by
  simp only [Flowgraph.connecting, Edge.connects, h.findNode?,
    Option.isSome_map]

theorem wiring : Flowgraph.wiring (nodes.map f) edges =
    Flowgraph.wiring nodes edges := by
  rw [Flowgraph.wiring, h.nodeIds, h.connecting, Flowgraph.wiring]

theorem duplicateIssues : Flowgraph.duplicateIssues (nodes.map f) =
    Flowgraph.duplicateIssues nodes := by
  suffices hfrom : ∀ seen,
      (repeatedNodesFrom seen (nodes.map f)).map Node.duplicateId =
        (repeatedNodesFrom seen nodes).map Node.duplicateId from hfrom []
  intro seen
  induction nodes generalizing seen with
  | nil => rfl
  | cons node rest ih =>
      rw [List.map_cons, repeatedNodesFrom, repeatedNodesFrom, h.id]
      split
      · rw [List.map_cons, List.map_cons, ih, Node.duplicateId, h.id]
        rfl
      · exact ih _

theorem portFaults (source target : Node) :
    (edge.portFaults (f source) (f target)).map edge.issue =
      (edge.portFaults source target).map edge.issue := by
  simp only [Edge.portFaults, h.kind]
  split
  · split
    · rfl
    · simp only [List.map_cons, Edge.issue, h.id]
  all_goals simp only [List.map_cons, Edge.issue, h.id, h.kind]

/-- The nodes in a fault are others, its issue is the same. -/
theorem faults : (edge.faults (nodes.map f)).map edge.issue =
    (edge.faults nodes).map edge.issue := by
  rw [Edge.faults, Edge.faults, h.findNode?, h.findNode?]
  split
  · rfl
  · cases Flowgraph.findNode? nodes edge.source.nodeId <;>
      cases Flowgraph.findNode? nodes edge.target.nodeId
    case some.some source target => exact h.portFaults edge source target
    all_goals rfl

theorem edgeIssues : Flowgraph.edgeIssues (nodes.map f) edges =
    Flowgraph.edgeIssues nodes edges := by
  suffices hfrom : ∀ seen, edgeIssuesFrom (nodes.map f) seen edges =
      edgeIssuesFrom nodes seen edges from hfrom []
  intro seen
  induction edges generalizing seen with
  | nil => rfl
  | cons edge rest ih =>
      -- The issues are the same, so an edge has faults with both lists of nodes
      -- or with none of them, and is remembered as a connection by both.
      have hfaults := h.faults nodes edge
      rw [edgeIssuesFrom, edgeIssuesFrom]
      cases hnew : edge.faults (nodes.map f) with
      | nil =>
          rw [hnew, List.map_nil] at hfaults
          rw [List.map_eq_nil_iff.mp hfaults.symm]
          simp only [ih]
      | cons fault faults =>
          rw [hnew] at hfaults
          cases hold : edge.faults nodes with
          | nil =>
              rw [hold] at hfaults
              cases hfaults
          | cons fault' faults' =>
              rw [hold] at hfaults
              simp only [hfaults, ih]

theorem inputIssues : Flowgraph.inputIssues (nodes.map f) edges =
    Flowgraph.inputIssues nodes edges := by
  simp only [Flowgraph.inputIssues, h.connecting, h.firstNodes,
    List.flatMap_map, h.kind, Edge.enters, h.id]
  refine List.flatMap_congr fun node _ => List.map_congr_left fun port _ => ?_
  simp only [Node.missingInput, h.id]

theorem outputIssues : Flowgraph.outputIssues (nodes.map f) edges =
    Flowgraph.outputIssues nodes edges := by
  have hcount (edges : List Edge) (node : Node) (port : Port) :
      connectionCount edges (f node) port =
        connectionCount edges node port := by
    simp only [connectionCount, Edge.leaves, h.id]
  have hissue (node : Node) (port : Port) (limit count : Nat) :
      (f node).tooManyConnections port limit count =
        node.tooManyConnections port limit count := by
    simp only [Node.tooManyConnections, h.id]
  simp only [Flowgraph.outputIssues, h.connecting, h.firstNodes,
    List.flatMap_map, h.kind, hcount, hissue]

theorem connectionIssues : Flowgraph.connectionIssues (nodes.map f) edges =
    Flowgraph.connectionIssues nodes edges := by
  rw [Flowgraph.connectionIssues, h.edgeIssues, h.inputIssues, h.outputIssues,
    Flowgraph.connectionIssues]

/-- The reports are equal when the issues of fields are. -/
theorem validate_eq_iff :
    validate (nodes.map f) edges = validate nodes edges ↔
      (nodes.flatMap fun node => (f node).fieldIssues) =
        nodes.flatMap Node.fieldIssues := by
  rw [validate, validate, h.duplicateIssues, h.connectionIssues, h.wiring,
    List.flatMap_map]
  constructor
  · intro heq
    have hissues := congrArg Report.issues heq
    simpa [Report.ofIssues] using hissues
  · intro heq
    simp only [heq]

end KeepsOutline

/-! ## The issues of a loaded node -/

theorem flatMap_eq_iff_of_sublist {α β : Type} {f g : α → List β} {as : List α}
    (h : ∀ a ∈ as, (f a).Sublist (g a)) :
    as.flatMap f = as.flatMap g ↔ ∀ a ∈ as, f a = g a := by
  refine ⟨fun heq => ?_, List.flatMap_congr⟩
  induction as with
  | nil => exact List.forall_mem_nil _
  | cons a rest ih =>
      rw [List.forall_mem_cons] at h ⊢
      rw [List.flatMap_cons, List.flatMap_cons] at heq
      -- Neither part can be longer, so none of them is shorter.
      have hrest := (List.Sublist.flatMap_right rest h.2).length_le
      have hlength := congrArg List.length heq
      rw [List.length_append, List.length_append] at hlength
      have hfirst := h.1.eq_of_length_le (by omega)
      rw [hfirst, List.append_cancel_left_eq] at heq
      exact ⟨hfirst, ih h.2 heq⟩

/-- A temperature between zero and two is finite. -/
theorem isFinite_of_isTemperature {t : Single} (h : isTemperature t = true) :
    t.isFinite = true := by
  have htwo : (Binary.ofInt .single 2).order = 1073741824 := by decide
  rw [isTemperature, Bool.and_eq_true, decide_eq_true_eq, decide_eq_true_eq,
    htwo, Binary.order] at h
  have hle : t.rank.val ≤ 1073741824 := by
    split at h
    · omega
    · omega
  exact decide_eq_true (Nat.lt_of_le_of_lt hle (by decide))

namespace NodeConfig

variable (config : NodeConfig)

theorem kind_withTemperature (t : Option Single) :
    (config.withTemperature t).kind = config.kind := by
  cases config <;> rfl

theorem requirements_withTemperature (t : Option Single) :
    (config.withTemperature t).requirements = config.requirements := by
  cases config <;> rfl

/-- A temperature that is out of range is still there if it is finite. -/
theorem badTemperature?_withTemperature :
    (config.withTemperature
      (config.temperature?.filter (·.isFinite))).badTemperature? =
        config.badTemperature?.filter (·.isFinite) := by
  cases config with
  | llm c =>
      simp only [withTemperature, temperature?, badTemperature?,
        Option.filter_filter, Bool.and_comm]
  | _ => rfl

theorem badTemperature?_eq_filter : config.badTemperature? =
    config.temperature?.filter fun t => !isTemperature t := by
  cases config <;> rfl

/-- Temperatures in range are finite, so an infinite one is reported. -/
theorem forall_mem_badTemperature? :
    (∀ t ∈ config.badTemperature?, t.isFinite = true) ↔
      ∀ t ∈ config.temperature?, t.isFinite = true := by
  rw [badTemperature?_eq_filter]
  refine ⟨fun h t ht => ?_, fun h t ht => ?_⟩
  · by_cases hrange : isTemperature t = true
    · exact isFinite_of_isTemperature hrange
    · exact h t (Option.mem_filter_iff.mpr ⟨ht, by simpa using hrange⟩)
  · exact h t (Option.mem_filter_iff.mp ht).1

end NodeConfig

namespace Node

variable (node : Node) (info : Option Json)

theorem keepsOutline_reloaded (info : Node → Option Json) :
    KeepsOutline fun node => node.reloaded (info node) where
  id _ := rfl
  kind node := node.config.kind_withTemperature _

theorem fieldIssues_reloaded : (node.reloaded info).fieldIssues =
    ((node.config.requirements.filter fun r => Text.isBlankText r.value).map
      node.missingField) ++
    (node.config.badTemperature?.toList.filter (·.isFinite)).map
      node.badTemperature := by
  rw [fieldIssues, reloaded, NodeConfig.requirements_withTemperature,
    NodeConfig.badTemperature?_withTemperature, Option.toList_filter]
  rfl

theorem sublist_fieldIssues_reloaded :
    (node.reloaded info).fieldIssues.Sublist node.fieldIssues := by
  rw [fieldIssues_reloaded, fieldIssues]
  exact (List.filter_sublist.map _).append_left _

theorem fieldIssues_reloaded_eq_iff :
    (node.reloaded info).fieldIssues = node.fieldIssues ↔
      ∀ t ∈ node.config.temperature?, t.isFinite = true := by
  rw [fieldIssues_reloaded, fieldIssues, List.append_cancel_left_eq,
    ← NodeConfig.forall_mem_badTemperature?]
  constructor
  · intro heq t ht
    have hlength := congrArg List.length heq
    rw [List.length_map, List.length_map,
      List.length_filter_eq_length_iff] at hlength
    exact hlength t (Option.mem_toList.mpr ht)
  · intro hfinite
    rw [List.filter_eq_self.mpr fun t ht => hfinite t (Option.mem_toList.mp ht)]

end Node

/-! ## Saving and loading -/

/-- The reports of a graph and of its reloaded nodes are equal exactly when no
temperature is infinite. -/
theorem Graph.validate_reloaded_eq_iff {graph graph' : Graph}
    {info : Node → Option Json} (hedges : graph'.edges = graph.edges)
    (hnodes : graph'.nodes = graph.nodes.map fun node =>
      node.reloaded (info node)) :
    graph'.validate = graph.validate ↔
      ∀ node ∈ graph.nodes, ∀ t ∈ node.config.temperature?,
        t.isFinite = true := by
  rw [validate, validate, hedges, hnodes,
    (Node.keepsOutline_reloaded info).validate_eq_iff,
    flatMap_eq_iff_of_sublist fun node _ =>
      node.sublist_fieldIssues_reloaded (info node)]
  exact forall₂_congr fun node _ => node.fieldIssues_reloaded_eq_iff (info node)

/-- A document that was made of a text can be saved and loaded again. The report
of its graph stays the same exactly when no temperature in it is infinite. -/
theorem reloading_keeps_report_iff {text : String} {d : Document}
    (h : Document.ofText text = .ok d) :
    ∃ d', Document.ofText d.toText = .ok d' ∧
      (d'.graph.validate = d.graph.validate ↔
        ∀ node ∈ d.graph.nodes, ∀ t ∈ node.config.temperature?,
          t.isFinite = true) := by
  obtain ⟨d', info, hread, hedges, hnodes⟩ := Document.exists_reloaded h
  exact ⟨d', hread, Graph.validate_reloaded_eq_iff hedges hnodes⟩

/-- A stored graph of one language model, with its temperature as written. -/
def askingText (temperature : String) : String :=
  "\x7b\"schemaVersion\":1,\"exportedAt\":\"1970-01-01T00:00:00Z\"," ++
    "\"graph\":\x7b\"nodes\":[\x7b\"id\":\"ask\",\"config\":\x7b\"kind\":" ++
    "\"llm\",\"model\":\"m\",\"temperature\":" ++ temperature ++
    "\x7d\x7d]\x7d\x7d"

/-- The document of a language model with a temperature. -/
def asking (temperature : Single) : Document where
  schemaVersion := 1
  exportedAt := .start
  graph :=
    { nodes := [{
        id := "ask"
        config := .llm { model := "m", temperature := some temperature } }] }
  editorState := .null

/-- A temperature of 2.5 is out of range, and still is after loading. -/
theorem reloading_keeps_report_iff_outOfRange :
    let d := asking ⟨false, BinaryFormat.single.nearest 5 2⟩
    Document.ofText (askingText "2.5") = .ok d ∧
      ∃ d', Document.ofText d.toText = .ok d' ∧
        d'.graph.validate = d.graph.validate := by
  intro d
  have htext : Document.ofText (askingText "2.5") = .ok d := by decide +kernel
  obtain ⟨d', hread, hiff⟩ := reloading_keeps_report_iff htext
  exact ⟨htext, d', hread, hiff.mpr (by decide)⟩

/-- A temperature of 1e39 is infinite as a 32-bit number. It is reported before
the document is saved and no more when it has been loaded. -/
theorem reloading_changes_report :
    ∃ d d', Document.ofText (askingText "1e39") = .ok d ∧
      Document.ofText d.toText = .ok d' ∧
        d'.graph.validate ≠ d.graph.validate := by
  let d := asking ⟨false, .last _⟩
  have htext : Document.ofText (askingText "1e39") = .ok d := by decide +kernel
  obtain ⟨d', info, hread, hedges, hnodes⟩ := Document.exists_reloaded htext
  refine ⟨d, d', htext, hread, fun heq => ?_⟩
  have hfinite := (Graph.validate_reloaded_eq_iff hedges hnodes).mp heq
  exact absurd hfinite (by decide)

end Flowgraph
