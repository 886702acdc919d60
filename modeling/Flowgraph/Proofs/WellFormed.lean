import Flowgraph.Proofs.Checks
import Flowgraph.Proofs.Magnitude
import Flowgraph.Proofs.Order
import Flowgraph.Proofs.Paths
import Flowgraph.Proofs.Ports

/-!
# Well-formed graphs

`WellFormed` says what a graph has to be like in order to be run, without a word
about how that is checked: which texts stand in its written configurations,
which edges there are, what ports they use, and that no path along them leads
back to where it began. Validation finds no errors in exactly these graphs, and
exactly these get a plan.

The checks do not work independently of each other. Looking an id up, following
an edge and telling two connections apart mean what they should only in a graph
that has passed the other checks, so both directions go through graphs whose ids
are distinct and whose edges fit. An order with a start needs no condition of
its own: a graph that has nodes and no circle has one.
-/

namespace Flowgraph

variable {nodes : List Node} {edges : List Edge} {node : Node} {edge : Edge}

/-! ## The condition -/

/-- A text with something else in it than white space. -/
def IsGiven (text : String) : Prop :=
  ∃ c ∈ text.toList, c.toNat ∉ Text.whiteSpace

/-- Two types of data fit if they are equal or one of them is `any`. -/
def DataType.Fits (a b : DataType) : Prop := a = any ∨ b = any ∨ a = b

/-- An edge that leads from one node to another one, by ports that these nodes
have and whose types fit. A port that is not named is the default one. -/
def Edge.Fits (nodes : List Node) (edge : Edge) : Prop :=
  edge.source.nodeId ≠ edge.target.nodeId ∧
    ∃ source ∈ nodes, source.id = edge.source.nodeId ∧
    ∃ target ∈ nodes, target.id = edge.target.nodeId ∧
    ∃ sourcePort ∈ source.kind.outputs,
      sourcePort.id = edge.source.portId.getD "out" ∧
    ∃ targetPort ∈ target.kind.inputs,
      targetPort.id = edge.target.portId.getD "in" ∧
      sourcePort.dataType.Fits targetPort.dataType

/-- Some edge leads from one node to another one. -/
def Joined (edges : List Edge) (u v : String) : Prop :=
  ∃ edge ∈ edges, edge.source.nodeId = u ∧ edge.target.nodeId = v

/-- The places that a port of a node feeds: nodes with a port of theirs. -/
def fedBy (edges : List Edge) (node : Node) (port : Port) :
    Finset (String × String) :=
  ((edges.filter fun edge =>
    edge.source.nodeId = node.id ∧ edge.sourcePort = port.id).map fun edge =>
      (edge.target.nodeId, edge.targetPort)).toFinset

/-- A graph that can be run. -/
structure WellFormed (nodes : List Node) (edges : List Edge) : Prop where
  nonempty : nodes ≠ []
  ids_distinct : (nodes.map (·.id)).Nodup
  fields_given : ∀ node ∈ nodes, ∀ path ∈ node.config.toJson.requiredPaths,
    ∃ text, node.config.toJson.textAt path = some text ∧ IsGiven text
  temperature_within : ∀ node ∈ nodes, ∀ config t, node.config = .llm config →
    config.temperature = some t →
      0 ≤ t.value ∧ t.value ≤ 2 * BinaryFormat.single.one
  edges_fit : ∀ edge ∈ edges, edge.Fits nodes
  inputs_fed : ∀ node ∈ nodes, ∀ port ∈ node.kind.inputs,
    port.required = true →
      ∃ edge ∈ edges,
        edge.target.nodeId = node.id ∧ edge.targetPort = port.id
  outputs_limited : ∀ node ∈ nodes, ∀ port ∈ node.kind.outputs, ∀ limit,
    port.maxConnections = some limit →
      (fedBy edges node port).card ≤ limit
  acyclic : ∀ id, ¬ Relation.TransGen (Joined edges) id id

/-! ## Fields -/

theorem isBlankText_eq_false {text : String} :
    Text.isBlankText text = false ↔ IsGiven text := by
  simp [Text.isBlankText, IsGiven, isBlank_eq_decide]

theorem forall_given_iff {j : Json} {requirements : List Requirement}
    {paths : List (List String)}
    (h : List.Forall₂ (Requirement.WrittenAt j) requirements paths) :
    (∀ r ∈ requirements, IsGiven r.value) ↔
      ∀ path ∈ paths, ∃ text, j.textAt path = some text ∧ IsGiven text := by
  induction h with
  | nil => simp
  | cons hwritten _ ih =>
      rw [List.forall_mem_cons, List.forall_mem_cons, ih, hwritten.2]
      simp

theorem isTemperature_iff {t : Single} : isTemperature t = true ↔
    0 ≤ t.value ∧ t.value ≤ 2 * BinaryFormat.single.one := by
  have hzero := Binary.order_le_order_iff (Binary.ofInt .single 0) t
  have htwo := Binary.order_le_order_iff t (Binary.ofInt .single 2)
  rw [show (Binary.ofInt .single 0).order = 0 by decide,
    show (Binary.ofInt .single 0).value = 0 by decide] at hzero
  rw [show (Binary.ofInt .single 2).value = 2 * BinaryFormat.single.one by
    decide] at htwo
  rw [isTemperature, Bool.and_eq_true, decide_eq_true_eq, decide_eq_true_eq,
    hzero, htwo]

theorem badTemperature?_eq_none {config : NodeConfig} :
    config.badTemperature? = none ↔
      ∀ c t, config = .llm c → c.temperature = some t →
        0 ≤ t.value ∧ t.value ≤ 2 * BinaryFormat.single.one := by
  cases config
  case llm c =>
    rw [NodeConfig.badTemperature?, Option.filter_eq_none_iff]
    simp only [Bool.not_eq_true', Bool.not_eq_false, isTemperature_iff]
    constructor
    · intro h other t hother ht
      cases hother
      exact h t ht
    · exact fun h t ht => h c t rfl ht
  all_goals simp [NodeConfig.badTemperature?]

theorem fieldIssues_eq_nil_iff : node.fieldIssues = [] ↔
    (∀ path ∈ node.config.toJson.requiredPaths,
      ∃ text, node.config.toJson.textAt path = some text ∧ IsGiven text) ∧
      ∀ c t, node.config = .llm c → c.temperature = some t →
        0 ≤ t.value ∧ t.value ≤ 2 * BinaryFormat.single.one := by
  rw [fieldIssues_eq_nil, badTemperature?_eq_none,
    ← forall_given_iff (requirements_written node.config)]
  simp only [isBlankText_eq_false]

/-! ## Edges

From here on ids are distinct, so that an id stands for any node that has it,
and then also all edges fit, so that all of them connect. -/

theorem compatible_iff {a b : DataType} :
    a.compatible b = true ↔ a.Fits b := by
  simp [DataType.compatible, DataType.Fits, or_assoc]

theorem fits_of_right (h : edge.faults nodes = []) : edge.Fits nodes := by
  obtain ⟨hne, source, target, hsource, htarget, hports⟩ := faults_eq_nil.mp h
  obtain ⟨out, inp, hout, hinp, hfit⟩ := portFaults_eq_nil.mp hports
  obtain ⟨ho, hoid⟩ := port?_eq_some.mp hout
  obtain ⟨hi, hiid⟩ := port?_eq_some.mp hinp
  exact ⟨hne, source, findNode?_mem hsource, findNode?_id hsource,
    target, findNode?_mem htarget, findNode?_id htarget,
    out, ho, hoid, inp, hi, hiid, compatible_iff.mp hfit⟩

theorem faults_eq_nil_iff (hids : (nodes.map (·.id)).Nodup) :
    edge.faults nodes = [] ↔ edge.Fits nodes := by
  refine ⟨fits_of_right, ?_⟩
  rintro ⟨hne, source, hs, hsource, target, ht, htarget, out, ho, hout, inp,
    hi, hinp, hfit⟩
  have hports := portFaults_eq_nil.mpr ⟨out, inp,
    port?_eq_some.mpr ⟨ho, hout⟩, port?_eq_some.mpr ⟨hi, hinp⟩,
    compatible_iff.mpr hfit⟩
  exact faults_eq_nil.mpr ⟨hne, source, target,
    (findNode?_of_nodup hids).mpr ⟨hs, hsource⟩,
    (findNode?_of_nodup hids).mpr ⟨ht, htarget⟩, hports⟩

theorem Edge.Fits.connects (h : edge.Fits nodes) :
    edge.connects nodes = true := by
  obtain ⟨hne, source, hs, hsource, target, ht, htarget, _⟩ := h
  exact connects_iff.mpr ⟨hne, findNode?_isSome.mpr ⟨source, hs, hsource⟩,
    findNode?_isSome.mpr ⟨target, ht, htarget⟩⟩

theorem Edge.Fits.targetPort_eq (h : edge.Fits nodes) :
    edge.targetPort = defaultInput := by
  obtain ⟨_, _, _, _, target, _, _, _, _, _, inp, hi, hinp, _⟩ := h
  exact hinp.symm.trans (id_of_mem_inputs hi)

theorem connecting_eq_self (hfit : ∀ edge ∈ edges, edge.Fits nodes) :
    connecting nodes edges = edges :=
  List.filter_eq_self.mpr fun edge hedge => (hfit edge hedge).connects

theorem inputIssues_eq_nil_iff (hids : (nodes.map (·.id)).Nodup)
    (hfit : ∀ edge ∈ edges, edge.Fits nodes) : inputIssues nodes edges = [] ↔
      ∀ node ∈ nodes, ∀ port ∈ node.kind.inputs, port.required = true →
        ∃ edge ∈ edges,
          edge.target.nodeId = node.id ∧ edge.targetPort = port.id := by
  simp only [inputIssues_eq_nil, mem_firstNodes_of_nodup hids,
    connecting_eq_self hfit, Edge.enters, Bool.and_eq_true, beq_iff_eq]

/-- Counting connections by their text counts the places that are fed, as long
as all edges enter inputs that exist. -/
theorem connectionCount_eq_card
    (h : ∀ edge ∈ edges, edge.targetPort = defaultInput)
    (node : Node) (port : Port) :
    connectionCount edges node port = (fedBy edges node port).card := by
  have hleaves : (edges.filter fun edge => edge.leaves node port) =
      edges.filter fun edge =>
        edge.source.nodeId = node.id ∧ edge.sourcePort = port.id := by
    refine List.filter_congr fun edge _ => ?_
    simp [Edge.leaves, Bool.beq_eq_decide_eq]
  rw [connectionCount, length_eraseDups, fedBy, hleaves]
  refine card_map_congr fun a ha b hb => ?_
  simp only [List.mem_filter, decide_eq_true_eq] at ha hb
  have hport : a.targetPort = b.targetPort :=
    (h a ha.1).trans (h b hb.1).symm
  rw [connection_eq_iff (ha.2.1.trans hb.2.1.symm) (ha.2.2.trans hb.2.2.symm)
    hport, Prod.mk.injEq, and_iff_left hport]

theorem outputIssues_eq_nil_iff (hids : (nodes.map (·.id)).Nodup)
    (hfit : ∀ edge ∈ edges, edge.Fits nodes) : outputIssues nodes edges = [] ↔
      ∀ node ∈ nodes, ∀ port ∈ node.kind.outputs, ∀ limit,
        port.maxConnections = some limit →
          (fedBy edges node port).card ≤ limit := by
  have hcount := connectionCount_eq_card fun edge hedge =>
    (hfit edge hedge).targetPort_eq
  simp only [outputIssues_eq_nil, mem_firstNodes_of_nodup hids,
    connecting_eq_self hfit, hcount]

/-! ## The graph as a whole -/

theorem feeds_wiring_eq_joined (hfit : ∀ edge ∈ edges, edge.Fits nodes) :
    (wiring nodes edges).Feeds = Joined edges := by
  funext u v
  rw [eq_iff_iff, feeds_wiring, connecting_eq_self hfit]
  rfl

theorem nodeIds_ne_nil : nodeIds nodes ≠ [] ↔ nodes ≠ [] := by
  rw [not_iff_not, List.eq_nil_iff_forall_not_mem,
    List.eq_nil_iff_forall_not_mem]
  simp only [mem_nodeIds]
  exact ⟨fun h node hnode => h node.id ⟨node, hnode, rfl⟩,
    fun h id ⟨node, hnode, _⟩ => h node hnode⟩

/-- Without a circle, having a start comes down to having a node at all. -/
theorem graphIssues_eq_nil_iff (hfit : ∀ edge ∈ edges, edge.Fits nodes) :
    ((wiring nodes edges).startIssues = [] ∧
        (wiring nodes edges).cycleIssues = []) ↔
      nodes ≠ [] ∧ ∀ id, ¬ Relation.TransGen (Joined edges) id id := by
  have hsound := wiring_sound nodes edges
  have hcycle : (wiring nodes edges).hasCycle = false ↔
      ∀ id, ¬ Relation.TransGen (Joined edges) id id := by
    rw [hsound.hasCycle_eq_false, ← feeds_wiring_eq_joined hfit]
    rfl
  rw [startIssues_eq_nil, cycleIssues_eq_nil, hcycle]
  refine and_congr_left fun hacyclic => ⟨?_, fun hne => ?_⟩
  · intro hstarts hnil
    subst hnil
    exact hstarts rfl
  · exact hsound.starts_ne_nil (hcycle.mpr hacyclic) (nodeIds_ne_nil.mpr hne)

/-! ## Validation -/

theorem errors_eq_zero_iff : (validate nodes edges).errors = 0 ↔
    duplicateIssues nodes = [] ∧ (∀ node ∈ nodes, node.fieldIssues = []) ∧
      (∀ edge ∈ edges, edge.faults nodes = []) ∧
      inputIssues nodes edges = [] ∧ outputIssues nodes edges = [] ∧
      (wiring nodes edges).startIssues = [] ∧
      (wiring nodes edges).cycleIssues = [] := by
  simp only [errors_validate, Nat.add_eq_zero_iff, List.length_eq_zero_iff,
    List.flatMap_eq_nil_iff, and_assoc]

theorem errors_eq_zero_iff_wellFormed :
    (validate nodes edges).errors = 0 ↔ WellFormed nodes edges := by
  simp only [errors_eq_zero_iff, duplicateIssues_eq_nil, fieldIssues_eq_nil_iff]
  constructor
  · intro ⟨hids, hfields, hfaults, hinputs, houtputs, hgraph⟩
    have hfit : ∀ edge ∈ edges, edge.Fits nodes := fun edge hedge =>
      (faults_eq_nil_iff hids).mp (hfaults edge hedge)
    obtain ⟨hne, hacyclic⟩ := (graphIssues_eq_nil_iff hfit).mp hgraph
    exact {
      nonempty := hne
      ids_distinct := hids
      fields_given := fun node hnode => (hfields node hnode).1
      temperature_within := fun node hnode => (hfields node hnode).2
      edges_fit := hfit
      inputs_fed := (inputIssues_eq_nil_iff hids hfit).mp hinputs
      outputs_limited := (outputIssues_eq_nil_iff hids hfit).mp houtputs
      acyclic := hacyclic }
  · intro h
    have hgraph := (graphIssues_eq_nil_iff h.edges_fit).mpr
      ⟨h.nonempty, h.acyclic⟩
    refine ⟨h.ids_distinct, fun node hnode => ⟨h.fields_given node hnode,
        h.temperature_within node hnode⟩, fun edge hedge => ?_, ?_, ?_, hgraph⟩
    · exact (faults_eq_nil_iff h.ids_distinct).mpr (h.edges_fit edge hedge)
    · exact (inputIssues_eq_nil_iff h.ids_distinct h.edges_fit).mpr
        h.inputs_fed
    · exact (outputIssues_eq_nil_iff h.ids_distinct h.edges_fit).mpr
        h.outputs_limited

/-- A report has a plan unless it has errors: without errors there is no cycle,
and without a cycle there is a plan to be had. -/
theorem plan_isSome_iff :
    (validate nodes edges).plan.isSome ↔ (validate nodes edges).errors = 0 := by
  have hplan : (validate nodes edges).plan =
      if (validate nodes edges).errors = 0 then (wiring nodes edges).plan?
      else none := rfl
  rw [hplan]
  by_cases herrors : (validate nodes edges).errors = 0
  · have hcycle := cycleIssues_eq_nil.mp
      (errors_eq_zero_iff.mp herrors).2.2.2.2.2.2
    simp [herrors, Wiring.plan?, hcycle]
  · simp [herrors]

/-- Validation accepts exactly the well-formed graphs: these are the graphs
without errors, and these are the graphs that get a plan. -/
theorem validate_accepts_iff (nodes : List Node) (edges : List Edge) :
    ((validate nodes edges).plan.isSome ↔ (validate nodes edges).errors = 0) ∧
      ((validate nodes edges).errors = 0 ↔ WellFormed nodes edges) :=
  ⟨plan_isSome_iff, errors_eq_zero_iff_wellFormed⟩

end Flowgraph
