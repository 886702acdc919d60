import Flowgraph.Proofs.WellFormed

/-!
# What an edge is found guilty of

There are five verdicts on an edge, and the nodes alone decide which one it is:
it leads back to its node, or a node is missing at one of its ends, or a node
has no port where the edge says so, or the ports do not fit together, or it is
right. `EdgeVerdict` gives each of them a condition of its own, none of which
leaves room for another one, and says what is found in that case.

Two steps lead from there to a list of edges. `EdgeVerdict.iff_findings` says
that the issues of an edge's faults have found just what the verdict on it
comes to, and the errors of a list are those of one edge after another. So no
edge has a say in the errors of another one, although it depends on the edges
before it whether it repeats one of them.
-/

namespace Flowgraph

variable {nodes : List Node} {edge : Edge} {source target : Node}

/-! ## The verdicts -/

/-- One side of an edge: a node that it leaves or enters, and the handle by
which it does. -/
structure EdgeSide where
  node : Node
  direction : Direction
  handle : Option String

namespace EdgeSide

/-- The name of the port that is meant: the default one without a handle. -/
def portName (side : EdgeSide) : String :=
  side.handle.getD side.direction.defaultPort

/-- The node has a port of that name. -/
def Resolves (side : EdgeSide) : Prop :=
  ∃ port ∈ side.node.kind.ports side.direction, port.id = side.portName

instance (side : EdgeSide) : Decidable side.Resolves :=
  inferInstanceAs (Decidable (∃ port ∈ _, _))

end EdgeSide

namespace Edge

/-- The ids at the ends of an edge that no node has, the source first. -/
def absentIds (nodes : List Node) (edge : Edge) : List String :=
  [edge.source.nodeId, edge.target.nodeId].filter fun id =>
    ∀ node ∈ nodes, node.id ≠ id

/-- The sides of an edge between two nodes that do not resolve, the source
first. -/
def unresolved (edge : Edge) (source target : Node) : List EdgeSide :=
  [⟨source, .output, edge.source.portId⟩,
   ⟨target, .input, edge.target.portId⟩].filter (¬ ·.Resolves)

end Edge

/-- What an issue has found: its code, the node it blames, and its details. -/
structure Finding where
  code : IssueCode
  nodeId : Option String := none
  details : Option Json := none
  deriving DecidableEq

/-- The finding of an issue. -/
def Issue.finding (issue : Issue) : Finding :=
  ⟨issue.code, issue.nodeId, issue.details⟩

/-- The finding that a side of an edge does not resolve. -/
def EdgeSide.finding (side : EdgeSide) : Finding where
  code := .unknownPort
  nodeId := some side.node.id
  details := some (.object
    [("direction", .string side.direction.name),
     ("port", .string side.portName)])

/-- The verdicts on an edge among nodes, each with the findings it comes to. An
id stands for the first node that has it. -/
inductive EdgeVerdict (nodes : List Node) (edge : Edge) : List Finding → Prop
  | selfLoop (loop : edge.source.nodeId = edge.target.nodeId) :
      EdgeVerdict nodes edge
        [{ code := .selfLoop, nodeId := some edge.source.nodeId }]
  | dangling (apart : edge.source.nodeId ≠ edge.target.nodeId)
      (absent : edge.absentIds nodes ≠ []) :
      EdgeVerdict nodes edge [{
        code := .danglingEdge
        details := some (.object
          [("missing", .array ((edge.absentIds nodes).map .string))]) }]
  | unknownPort {source target : Node}
      (apart : edge.source.nodeId ≠ edge.target.nodeId)
      (leaves : findNode? nodes edge.source.nodeId = some source)
      (enters : findNode? nodes edge.target.nodeId = some target)
      (unresolved : edge.unresolved source target ≠ []) :
      EdgeVerdict nodes edge
        ((edge.unresolved source target).map EdgeSide.finding)
  | typeMismatch {source target : Node} {sourcePort targetPort : Port}
      (apart : edge.source.nodeId ≠ edge.target.nodeId)
      (leaves : findNode? nodes edge.source.nodeId = some source)
      (enters : findNode? nodes edge.target.nodeId = some target)
      (out : sourcePort ∈ source.kind.outputs)
      (outName : sourcePort.id = edge.sourcePort)
      (inp : targetPort ∈ target.kind.inputs)
      (inpName : targetPort.id = edge.targetPort)
      (unfit : ¬ sourcePort.dataType.Fits targetPort.dataType) :
      EdgeVerdict nodes edge [{
        code := .typeMismatch
        details := some (.object
          [("sourceType", .string sourcePort.dataType.name),
           ("targetType", .string targetPort.dataType.name)]) }]
  | right {source target : Node} {sourcePort targetPort : Port}
      (apart : edge.source.nodeId ≠ edge.target.nodeId)
      (leaves : findNode? nodes edge.source.nodeId = some source)
      (enters : findNode? nodes edge.target.nodeId = some target)
      (out : sourcePort ∈ source.kind.outputs)
      (outName : sourcePort.id = edge.sourcePort)
      (inp : targetPort ∈ target.kind.inputs)
      (inpName : targetPort.id = edge.targetPort)
      (fit : sourcePort.dataType.Fits targetPort.dataType) :
      EdgeVerdict nodes edge []

/-! ## From the verdict to the faults -/

theorem EdgeSide.resolves_iff {side : EdgeSide} : side.Resolves ↔
    (side.node.kind.port? side.direction side.handle).isSome := by
  simp [Resolves, NodeKind.port?, portName]

namespace Edge

/-- The ids that no node has are those that no node is found for. -/
theorem absentIds_eq (nodes : List Node) (edge : Edge) :
    edge.absentIds nodes = [edge.source.nodeId, edge.target.nodeId].filter
      fun id => (findNode? nodes id).isNone := by
  refine List.filter_congr fun id _ => ?_
  rw [Bool.eq_iff_iff, decide_eq_true_eq, Option.isNone_iff_eq_none,
    findNode?_eq_none]

theorem absentIds_eq_nil : edge.absentIds nodes = [] ↔
    ∃ source target, findNode? nodes edge.source.nodeId = some source ∧
      findNode? nodes edge.target.nodeId = some target := by
  simp [absentIds_eq, Option.ne_none_iff_exists']

theorem faults_of_loop (h : edge.source.nodeId = edge.target.nodeId) :
    edge.faults nodes = [.selfLoop] := by
  rw [faults, if_pos (isSelfLoop_iff.mpr h)]

theorem faults_of_absent (h : edge.source.nodeId ≠ edge.target.nodeId)
    (habsent : edge.absentIds nodes ≠ []) :
    edge.faults nodes = [.dangling (edge.absentIds nodes)] := by
  rw [absentIds_eq] at habsent ⊢
  rw [faults, if_neg (h ∘ isSelfLoop_iff.mp)]
  split
  · next hs ht => simp [hs, ht] at habsent
  · next hs ht => simp [hs, ht]
  · next hs ht => simp [hs, ht]
  · next hs ht => simp [hs, ht]

theorem faults_of_found (h : edge.source.nodeId ≠ edge.target.nodeId)
    (hs : findNode? nodes edge.source.nodeId = some source)
    (ht : findNode? nodes edge.target.nodeId = some target) :
    edge.faults nodes = edge.portFaults source target := by
  rw [faults, if_neg (h ∘ isSelfLoop_iff.mp), hs, ht]

/-- The sides that do not resolve are those that no port is found for. -/
theorem unresolved_eq (edge : Edge) (source target : Node) :
    edge.unresolved source target =
      [⟨source, .output, edge.source.portId⟩,
       ⟨target, .input, edge.target.portId⟩].filter fun side =>
        (side.node.kind.port? side.direction side.handle).isNone := by
  refine List.filter_congr fun side _ => ?_
  rw [Bool.eq_iff_iff, decide_eq_true_eq, EdgeSide.resolves_iff,
    Option.not_isSome_iff_eq_none, Option.isNone_iff_eq_none]

theorem unresolved_eq_nil : edge.unresolved source target = [] ↔
    (∃ port ∈ source.kind.outputs, port.id = edge.sourcePort) ∧
      ∃ port ∈ target.kind.inputs, port.id = edge.targetPort := by
  simp [unresolved, EdgeSide.Resolves, EdgeSide.portName, NodeKind.ports,
    Direction.defaultPort, sourcePort, targetPort]

theorem portFaults_of_unresolved (h : edge.unresolved source target ≠ []) :
    edge.portFaults source target =
      (edge.unresolved source target).map fun side =>
        .unknownPort side.node side.direction side.portName := by
  rw [unresolved_eq] at h ⊢
  rw [portFaults, sourcePort, targetPort]
  split
  · next hs ht => simp [hs, ht] at h
  · next hs ht => simp [hs, ht, EdgeSide.portName, Direction.defaultPort]
  · next hs ht => simp [hs, ht, EdgeSide.portName, Direction.defaultPort]
  · next hs ht => simp [hs, ht, EdgeSide.portName, Direction.defaultPort]

theorem portFaults_of_resolved {sourcePort targetPort : Port}
    (hout : sourcePort ∈ source.kind.outputs)
    (houtName : sourcePort.id = edge.sourcePort)
    (hinp : targetPort ∈ target.kind.inputs)
    (hinpName : targetPort.id = edge.targetPort) :
    edge.portFaults source target =
      if sourcePort.dataType.compatible targetPort.dataType then []
      else [.typeMismatch source sourcePort target targetPort] := by
  have hs : source.kind.port? .output edge.source.portId = some sourcePort :=
    port?_eq_some.mpr ⟨hout, houtName⟩
  have ht : target.kind.port? .input edge.target.portId = some targetPort :=
    port?_eq_some.mpr ⟨hinp, hinpName⟩
  rw [portFaults, hs, ht]

/-- The issues of the faults of an edge. -/
def ownErrors (nodes : List Node) (edge : Edge) : List Issue :=
  (edge.faults nodes).map edge.issue

end Edge

namespace EdgeVerdict

variable {found : List Finding}

/-- What a verdict comes to is found. -/
theorem findings_eq (h : EdgeVerdict nodes edge found) :
    (edge.ownErrors nodes).map Issue.finding = found := by
  rw [Edge.ownErrors, List.map_map]
  cases h with
  | selfLoop loop =>
      rw [Edge.faults_of_loop loop]
      rfl
  | dangling apart absent =>
      rw [Edge.faults_of_absent apart absent]
      rfl
  | unknownPort apart leaves enters unresolved =>
      rw [Edge.faults_of_found apart leaves enters,
        Edge.portFaults_of_unresolved unresolved, List.map_map]
      rfl
  | typeMismatch apart leaves enters out outName inp inpName unfit =>
      rw [Edge.faults_of_found apart leaves enters,
        Edge.portFaults_of_resolved out outName inp inpName,
        if_neg (unfit ∘ compatible_iff.mp)]
      rfl
  | right apart leaves enters out outName inp inpName fit =>
      rw [Edge.faults_of_found apart leaves enters,
        Edge.portFaults_of_resolved out outName inp inpName,
        if_pos (compatible_iff.mpr fit)]
      rfl

/-- There is a verdict on every edge. -/
theorem exists_verdict (nodes : List Node) (edge : Edge) :
    ∃ found, EdgeVerdict nodes edge found := by
  by_cases hloop : edge.source.nodeId = edge.target.nodeId
  · exact ⟨_, .selfLoop hloop⟩
  by_cases habsent : edge.absentIds nodes = []
  swap
  · exact ⟨_, .dangling hloop habsent⟩
  obtain ⟨source, target, hs, ht⟩ := Edge.absentIds_eq_nil.mp habsent
  by_cases hunresolved : edge.unresolved source target = []
  swap
  · exact ⟨_, .unknownPort hloop hs ht hunresolved⟩
  obtain ⟨⟨out, hout, houtName⟩, inp, hinp, hinpName⟩ :=
    Edge.unresolved_eq_nil.mp hunresolved
  by_cases hfit : out.dataType.Fits inp.dataType
  · exact ⟨_, .right hloop hs ht hout houtName hinp hinpName hfit⟩
  · exact ⟨_, .typeMismatch hloop hs ht hout houtName hinp hinpName hfit⟩

/-- A verdict is what the issues of an edge have found, and there is no other
verdict on it. -/
theorem iff_findings : EdgeVerdict nodes edge found ↔
    (edge.ownErrors nodes).map Issue.finding = found := by
  refine ⟨findings_eq, ?_⟩
  rintro rfl
  obtain ⟨found, hfound⟩ := exists_verdict nodes edge
  exact hfound.findings_eq.symm ▸ hfound

end EdgeVerdict

/-! ## From one edge to all edges -/

/-- The errors among the issues of edges one by one. -/
def edgeErrors (nodes : List Node) (edges : List Edge) : List Issue :=
  (edgeIssues nodes edges).filter (·.isError)

theorem edgeErrors_eq (nodes : List Node) (edges : List Edge) :
    edgeErrors nodes edges = edges.flatMap (·.ownErrors nodes) :=
  filter_isError_edgeIssuesFrom []

theorem edgeErrors_append (nodes : List Node) (xs ys : List Edge) :
    edgeErrors nodes (xs ++ ys) =
      edgeErrors nodes xs ++ edgeErrors nodes ys := by
  simp only [edgeErrors_eq, List.flatMap_append]

theorem edgeErrors_cons (nodes : List Node) (edge : Edge) (rest : List Edge) :
    edgeErrors nodes (edge :: rest) =
      edge.ownErrors nodes ++ edgeErrors nodes rest := by
  simp only [edgeErrors_eq, List.flatMap_cons]

theorem marks_of_mem_ownErrors {issue : Issue}
    (h : issue ∈ edge.ownErrors nodes) :
    issue.isError = true ∧ issue.kind = .edge ∧
      issue.edgeId = some edge.id := by
  obtain ⟨fault, _, rfl⟩ := List.mem_map.mp h
  cases fault <;> exact ⟨rfl, rfl, rfl⟩

/-- An edge has errors of its own, the same ones among whatever other edges it
stands. They are what the verdict on it says, and no other verdict holds. -/
theorem edges_judged_one_by_one (nodes : List Node) :
    (∀ edge : Edge, ∃ own : List Issue,
      (∀ found, EdgeVerdict nodes edge found ↔
        own.map Issue.finding = found) ∧
      (∀ issue ∈ own, issue.isError = true ∧ issue.kind = .edge ∧
        issue.edgeId = some edge.id) ∧
      ∀ before after, edgeErrors nodes (before ++ edge :: after) =
        edgeErrors nodes before ++ own ++ edgeErrors nodes after) ∧
    ∀ xs ys, edgeErrors nodes (xs ++ ys) =
      edgeErrors nodes xs ++ edgeErrors nodes ys := by
  refine ⟨fun edge => ⟨edge.ownErrors nodes, fun _ => EdgeVerdict.iff_findings,
    fun _ => marks_of_mem_ownErrors, fun before after => ?_⟩,
    edgeErrors_append nodes⟩
  rw [edgeErrors_append, edgeErrors_cons, List.append_assoc]

/-- Edges that are wrong in every way, and one that is right among them. -/
def Graph.tangle : Graph where
  nodes := [
    .new "text" (.text {}), .new "store" (.database {}), .new "model" (.llm {}),
    .new "begin" .trigger, .new "end" .output]
  edges := [
    ⟨"loop", { nodeId := "text" }, { nodeId := "text" }⟩,
    ⟨"right", { nodeId := "text" }, { nodeId := "end" }⟩,
    ⟨"stray", { nodeId := "nowhere" }, { nodeId := "end" }⟩,
    ⟨"back", { nodeId := "end" }, { nodeId := "begin" }⟩,
    ⟨"unfit", { nodeId := "store" }, { nodeId := "model" }⟩]

/-- The fourth edge has two errors, and the others keep theirs. -/
theorem edges_judged_one_by_one_tangle :
    EdgeVerdict Graph.tangle.nodes
      ⟨"back", { nodeId := "end" }, { nodeId := "begin" }⟩
      [EdgeSide.finding ⟨.new "end" .output, .output, none⟩,
       EdgeSide.finding ⟨.new "begin" .trigger, .input, none⟩] ∧
    (edgeErrors Graph.tangle.nodes Graph.tangle.edges).map (·.code) =
      [.selfLoop, .danglingEdge, .unknownPort, .unknownPort,
       .typeMismatch] := by
  obtain ⟨own, hverdict, _, herrors⟩ :=
    (edges_judged_one_by_one Graph.tangle.nodes).1
      ⟨"back", { nodeId := "end" }, { nodeId := "begin" }⟩
  have hown : own = edgeErrors Graph.tangle.nodes
      [⟨"back", { nodeId := "end" }, { nodeId := "begin" }⟩] := by
    simpa [edgeErrors, edgeIssues, edgeIssuesFrom] using (herrors [] []).symm
  refine ⟨(hverdict _).mpr ?_, by decide⟩
  rw [hown]
  decide

end Flowgraph
