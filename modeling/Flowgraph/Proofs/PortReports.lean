import Flowgraph.Proofs.EdgeVerdicts
import Flowgraph.Proofs.Repeats

/-!
# What is reported of ports

Two checks go through the ports of the nodes: required inputs are to be entered
by an edge, and limited outputs are not to be left by too many. Both look at the
first node of each id, in the order of the ids, at its ports in the order of the
tables, and at the edges that join two nodes. They differ in what they ask of a
port and in what they say.

`ReportsPorts` puts down what such a check amounts to: its issues are one for
each port of which something holds, and none for any other. It holds of every
check that goes through the ports in this way, so what is left to be shown is
what the question of either check means.

For inputs this is membership. For outputs it is a count of different texts,
and texts of connections can be ambiguous. But an edge that enters no unknown
port enters the one input that its node can have, and among the edges that leave
one port and do so the texts differ just where the targets do, whatever
characters the ids have in them.
-/

namespace Flowgraph

variable {nodes : List Node} {edges : List Edge} {node : Node} {edge : Edge}
  {direction : Direction} {port : Port}

/-! ## Checks that go through the ports -/

/-- The first node of its id. -/
def IsFirst (nodes : List Node) (node : Node) : Prop :=
  ∃ front back, nodes = front ++ node :: back ∧
    ∀ other ∈ front, other.id ≠ node.id

theorem mem_firstNodes_iff : node ∈ firstNodes nodes ↔ IsFirst nodes node := by
  rw [mem_firstNodes, findNode?, List.find?_eq_some_iff_append, IsFirst]
  simp

/-- The place of a port: that of the first node of its node's id, and its own
among the ports of the kind. -/
def portPlace (nodes : List Node) (direction : Direction)
    (pair : Node × Port) : Nat × Nat :=
  ((nodes.map (·.id)).idxOf pair.1.id,
    (pair.1.kind.ports direction).idxOf pair.2)

/-- Issues that are one for each port of which something holds, in the order of
nodes and ports, and none for any other port. -/
def ReportsPorts (nodes : List Node) (direction : Direction)
    (holds : Node → Port → Prop) (tells : Node → Port → Issue → Prop)
    (issues : List Issue) : Prop :=
  ∃ pairs : List (Node × Port),
    (∀ node port, (node, port) ∈ pairs ↔ IsFirst nodes node ∧
      port ∈ node.kind.ports direction ∧ holds node port) ∧
    pairs.Pairwise (fun a b => Prod.Lex (· < ·) (· < ·)
      (portPlace nodes direction a) (portPlace nodes direction b)) ∧
    List.Forall₂ (fun issue pair => tells pair.1 pair.2 issue) issues pairs

theorem ports_pairwise (kind : NodeKind) (direction : Direction) :
    (kind.ports direction).Pairwise fun a b =>
      (kind.ports direction).idxOf a < (kind.ports direction).idxOf b :=
  pairwise_idxOf (List.Nodup.of_map _ (ports_nodup kind direction))

/-- A check that asks every port of a first node, and says at most one thing of
it. -/
theorem reportsPorts_flatMap {check : Node → Port → Option Issue}
    {holds : Node → Port → Prop} {tells : Node → Port → Issue → Prop}
    (hholds : ∀ node port, (check node port).isSome ↔ holds node port)
    (htells : ∀ node port issue, check node port = some issue →
      tells node port issue) :
    ReportsPorts nodes direction holds tells
      ((firstNodes nodes).flatMap fun node =>
        (node.kind.ports direction).filterMap (check node)) := by
  let asked (node : Node) : List (Node × Port) :=
    ((node.kind.ports direction).filter fun port =>
      (check node port).isSome).map (node, ·)
  refine ⟨(firstNodes nodes).flatMap asked, fun node port => ?_, ?_, ?_⟩
  · simp only [asked, List.mem_flatMap, List.mem_map, List.mem_filter,
      Prod.mk.injEq]
    constructor
    · rintro ⟨_, hnode, _, ⟨hport, hissue⟩, rfl, rfl⟩
      exact ⟨mem_firstNodes_iff.mp hnode, hport, (hholds _ _).mp hissue⟩
    · rintro ⟨hnode, hport, hissue⟩
      exact ⟨node, mem_firstNodes_iff.mpr hnode, port,
        ⟨hport, (hholds _ _).mpr hissue⟩, rfl, rfl⟩
  · refine List.pairwise_flatMap.mpr ⟨fun node _ => ?_, ?_⟩
    · refine List.pairwise_map.mpr (List.Pairwise.filter _ ?_)
      exact (ports_pairwise node.kind direction).imp fun hlt => .right _ hlt
    · refine (pairwise_firstNodes nodes).imp fun hlt => ?_
      rintro a ha b hb
      obtain ⟨_, _, rfl⟩ := List.mem_map.mp ha
      obtain ⟨_, _, rfl⟩ := List.mem_map.mp hb
      exact .left _ _ hlt
  · have hnode (node : Node) (ports : List Port) :
        List.Forall₂ (fun issue pair => tells pair.1 pair.2 issue)
          (ports.filterMap (check node))
          ((ports.filter fun port => (check node port).isSome).map
            (node, ·)) := by
      induction ports with
      | nil => exact .nil
      | cons port rest ih =>
          cases hissue : check node port with
          | none =>
              rw [List.filterMap_cons_none hissue,
                List.filter_cons_of_neg (by simp [hissue])]
              exact ih
          | some issue =>
              rw [List.filterMap_cons_some hissue,
                List.filter_cons_of_pos (by simp [hissue])]
              exact .cons (htells node port issue hissue) ih
    induction firstNodes nodes with
    | nil => exact .nil
    | cons node rest ih =>
        rw [List.flatMap_cons, List.flatMap_cons]
        exact List.rel_append (hnode node _) ih

/-! ## Edges that join two nodes -/

/-- An edge that leads from one node to another one, whatever its ports. Any
other edge leads back to its own node or has an end without a node. -/
def Edge.Joins (nodes : List Node) (edge : Edge) : Prop :=
  edge.source.nodeId ≠ edge.target.nodeId ∧
    (∃ node ∈ nodes, node.id = edge.source.nodeId) ∧
    ∃ node ∈ nodes, node.id = edge.target.nodeId

instance : Decidable (edge.Joins nodes) :=
  inferInstanceAs (Decidable (_ ∧ _))

theorem connects_iff_joins :
    edge.connects nodes = true ↔ edge.Joins nodes := by
  rw [connects_iff, findNode?_isSome, findNode?_isSome, Edge.Joins]

theorem connecting_eq_joining (nodes : List Node) (edges : List Edge) :
    connecting nodes edges = edges.filter (·.Joins nodes) := by
  refine List.filter_congr fun edge _ => ?_
  rw [Bool.eq_iff_iff, connects_iff_joins, decide_eq_true_eq]

/-- An edge that joins no nodes is passed over by the checks of ports. -/
theorem connecting_insert {front back : List Edge} (h : ¬ edge.Joins nodes) :
    connecting nodes (front ++ edge :: back) =
      connecting nodes (front ++ back) := by
  rw [connecting, List.filter_append,
    List.filter_cons_of_neg (mt connects_iff_joins.mp h), ← List.filter_append,
    connecting]

/-! ## Required inputs -/

/-- A required input that no edge enters, of those that join two nodes. -/
def Unfed (nodes : List Node) (edges : List Edge) (node : Node) (port : Port) :
    Prop :=
  port.required = true ∧ ∀ edge ∈ edges, edge.Joins nodes →
    ¬ (edge.target.nodeId = node.id ∧ edge.targetPort = port.id)

theorem unfed_iff : Unfed nodes edges node port ↔
    (port.required &&
      !(connecting nodes edges).any (·.enters node port)) = true := by
  rw [Unfed, Bool.and_eq_true, Bool.not_eq_true', List.any_eq_false]
  simp only [mem_connecting, connects_iff_joins, Edge.enters,
    Bool.and_eq_true, beq_iff_eq, and_imp]

/-- The error of a required input that is not fed, but for its words. -/
def unfedIssue (node : Node) (port : Port) : Issue :=
  { Issue.error .edge .missingRequiredInput "" with
    nodeId := some node.id
    fieldPath := some s!"inputs.{port.id}" }

theorem reportsPorts_inputIssues (nodes : List Node) (edges : List Edge) :
    ReportsPorts nodes .input (Unfed nodes edges)
      (fun node port issue => issue.unworded = unfedIssue node port)
      (inputIssues nodes edges) := by
  have hissues : inputIssues nodes edges =
      (firstNodes nodes).flatMap fun node =>
        (node.kind.ports .input).filterMap fun port =>
          if port.required && !(connecting nodes edges).any (·.enters node port)
            then some (node.missingInput port) else none := by
    refine List.flatMap_congr fun node _ => ?_
    rw [← List.filterMap_eq_map', List.filterMap_filter]
    rfl
  rw [hissues]
  refine reportsPorts_flatMap (fun node port => ?_) fun node port issue h => ?_
  · rw [unfed_iff, Option.isSome_ite]
  · obtain ⟨_, hissue⟩ := Option.ite_none_right_eq_some.mp h
    obtain rfl := Option.some.inj hissue
    rfl

/-- Missing inputs are reported exactly: each required input of the first node
of an id has its one error, in the order of ids, unless an edge that joins two
nodes enters it. Nodes that repeat an id get none. An edge that leads back to
its own node, or has an end without a node, makes no difference wherever it is
added. -/
theorem missing_inputs_exact (nodes : List Node) (edges : List Edge) :
    ReportsPorts nodes .input (Unfed nodes edges)
      (fun node port issue => issue.unworded = unfedIssue node port)
      (inputIssues nodes edges) ∧
    (validate nodes edges).issuesOf .missingRequiredInput =
      inputIssues nodes edges ∧
    (∀ front node back, nodes = front ++ node :: back →
      (∃ other ∈ front, other.id = node.id) →
        inputIssues (front ++ back) edges = inputIssues nodes edges) ∧
    ∀ front edge back, edges = front ++ back → ¬ edge.Joins nodes →
      inputIssues nodes (front ++ edge :: back) = inputIssues nodes edges := by
  refine ⟨reportsPorts_inputIssues nodes edges, issuesOf_missingRequiredInput,
    ?_, ?_⟩
  · rintro front node back rfl htaken
    exact ((sameFirsts_leaveOut back htaken).inputIssues_eq edges).symm
  · rintro front edge back rfl hapart
    rw [inputIssues, connecting_insert hapart, inputIssues]

/-- A chain in which the check is fed only by a node that is not there, and the
repeated id belongs to a step that is fed, by an edge that names its port, and
to an output. -/
def Graph.starved : Graph where
  nodes := [
    .new "start" .trigger, .new "ask" (.llm {}), .new "check" (.condition {}),
    .new "ask" .output, .new "end" .output]
  edges := [
    ⟨"e1", { nodeId := "start" }, { nodeId := "ask", portId := some "in" }⟩,
    ⟨"e2", { nodeId := "gone" }, { nodeId := "check" }⟩,
    ⟨"e3", { nodeId := "check", portId := some "true" }, { nodeId := "end" }⟩]

/-- The check alone is reported. Leaving out the second node of the repeated id
changes nothing, and nor does leading the check back to itself. -/
theorem missing_inputs_exact_starved :
    (inputIssues Graph.starved.nodes Graph.starved.edges).map
        (fun issue => (issue.nodeId, issue.fieldPath)) =
      [(some "check", some "inputs.in")] ∧
    inputIssues (Graph.starved.nodes.eraseIdx 3) Graph.starved.edges =
      inputIssues Graph.starved.nodes Graph.starved.edges ∧
    inputIssues Graph.starved.nodes (⟨"e4", { nodeId := "check" },
        { nodeId := "check" }⟩ :: Graph.starved.edges) =
      inputIssues Graph.starved.nodes Graph.starved.edges := by
  obtain ⟨_, _, hrepeat, hapart⟩ :=
    missing_inputs_exact Graph.starved.nodes Graph.starved.edges
  refine ⟨by decide, ?_, ?_⟩
  · exact hrepeat (Graph.starved.nodes.take 3) (.new "ask" .output)
      [.new "end" .output] rfl (by decide)
  · exact hapart [] _ Graph.starved.edges rfl (by decide)

/-! ## Limited outputs -/

/-- A limited output from which edges that join two nodes feed more places than
it allows. A place is a node and a port of it. -/
def Overfull (nodes : List Node) (edges : List Edge) (node : Node)
    (port : Port) : Prop :=
  ∃ limit, port.maxConnections = some limit ∧
    limit < (fedBy (edges.filter (·.Joins nodes)) node port).card

/-- The error of a limited output that too many connections leave, but for its
words. -/
def overfullIssue (node : Node) (port : Port) (limit count : Nat) : Issue :=
  { Issue.error .edge .tooManyConnections "" with
    nodeId := some node.id
    details := some (.object
      [("count", .int count), ("limit", .int limit),
       ("port", .string port.id)]) }

/-- Unless unknown ports are reported, edges that join two nodes enter the input
that their target has. -/
theorem targetPort_of_joins
    (h : ∀ issue ∈ edgeIssues nodes edges, issue.code ≠ .unknownPort)
    (hedge : edge ∈ edges) (hjoins : edge.Joins nodes) :
    edge.targetPort = defaultInput := by
  obtain ⟨hne, hsource, htarget⟩ := hjoins
  obtain ⟨source, hs⟩ := Option.isSome_iff_exists.mp
    (findNode?_isSome.mpr hsource)
  obtain ⟨target, ht⟩ := Option.isSome_iff_exists.mp
    (findNode?_isSome.mpr htarget)
  by_cases hunresolved : edge.unresolved source target = []
  · obtain ⟨_, port, hport, hname⟩ := Edge.unresolved_eq_nil.mp hunresolved
    exact hname.symm.trans (id_of_mem_inputs hport)
  · -- A side that does not resolve would be reported.
    obtain ⟨side, hside⟩ := List.exists_mem_of_ne_nil _ hunresolved
    have hown : edge.issue
        (.unknownPort side.node side.direction side.portName) ∈
          edgeErrors nodes edges := by
      rw [edgeErrors_eq, List.mem_flatMap]
      refine ⟨edge, hedge, List.mem_map_of_mem ?_⟩
      rw [Edge.faults_of_found hne hs ht,
        Edge.portFaults_of_unresolved hunresolved]
      exact List.mem_map_of_mem hside
    exact absurd rfl (h _ (List.mem_of_mem_filter hown))

theorem connectionCount_connecting
    (h : ∀ issue ∈ edgeIssues nodes edges, issue.code ≠ .unknownPort)
    (node : Node) (port : Port) :
    connectionCount (connecting nodes edges) node port =
      (fedBy (edges.filter (·.Joins nodes)) node port).card := by
  rw [connecting_eq_joining]
  refine connectionCount_eq_card (fun edge hedge => ?_) node port
  obtain ⟨hmem, hjoins⟩ := List.mem_filter.mp hedge
  exact targetPort_of_joins h hmem (of_decide_eq_true hjoins)

theorem reportsPorts_outputIssues
    (h : ∀ issue ∈ edgeIssues nodes edges, issue.code ≠ .unknownPort) :
    ReportsPorts nodes .output (Overfull nodes edges)
      (fun node port issue => ∃ limit, port.maxConnections = some limit ∧
        issue.unworded = overfullIssue node port limit
          (fedBy (edges.filter (·.Joins nodes)) node port).card)
      (outputIssues nodes edges) := by
  rw [outputIssues]
  simp only [connectionCount_connecting h]
  refine reportsPorts_flatMap (fun node port => ?_) fun node port issue => ?_
  · rw [Overfull]
    cases port.maxConnections with
    | none => simp
    | some limit => simp
  · cases port.maxConnections with
    | none =>
        intro hissue
        cases hissue
    | some limit =>
        intro hissue
        obtain ⟨_, hissue⟩ := Option.ite_none_right_eq_some.mp hissue
        obtain rfl := Option.some.inj hissue
        exact ⟨limit, rfl, rfl⟩

/-- Limited outputs are reported exactly, unless ports are reported as unknown:
each of the first node of an id has its one error, in the order of ids and
ports, if edges that join two nodes feed more places from it than it allows.
The error has the number of these places. Nothing is asked of the ids. -/
theorem overfull_outputs_exact
    (h : ∀ issue ∈ edgeIssues nodes edges, issue.code ≠ .unknownPort) :
    ReportsPorts nodes .output (Overfull nodes edges)
      (fun node port issue => ∃ limit, port.maxConnections = some limit ∧
        issue.unworded = overfullIssue node port limit
          (fedBy (edges.filter (·.Joins nodes)) node port).card)
      (outputIssues nodes edges) ∧
    (validate nodes edges).issuesOf .tooManyConnections =
      outputIssues nodes edges :=
  ⟨reportsPorts_outputIssues h, issuesOf_tooManyConnections⟩

/-- A condition whose first branch leads to one place twice and to a second
one, and whose second branch leads to one place. The ids are made of the
characters that stand between the parts of a connection's text. -/
def Graph.forked : Graph where
  nodes := [
    .new "start" .trigger, .new ":->" (.condition {}), .new "->" .output,
    .new "->:in" .output]
  edges := [
    ⟨"e1", { nodeId := "start" }, { nodeId := ":->" }⟩,
    ⟨"e2", { nodeId := ":->", portId := some "true" }, { nodeId := "->" }⟩,
    ⟨"e3", { nodeId := ":->", portId := some "true" },
      { nodeId := "->", portId := some "in" }⟩,
    ⟨"e4", { nodeId := ":->", portId := some "true" }, { nodeId := "->:in" }⟩,
    ⟨"e5", { nodeId := ":->", portId := some "false" }, { nodeId := "->" }⟩]

theorem overfull_outputs_exact_forked :
    (∀ issue ∈ edgeIssues Graph.forked.nodes Graph.forked.edges,
        issue.code ≠ .unknownPort) ∧
      (Graph.forked.validate.issuesOf .tooManyConnections).map
          (fun issue => (issue.nodeId, issue.details)) =
        [(some ":->", some (.object
          [("count", .int 2), ("limit", .int 1), ("port", .string "true")]))] ∧
      ∃ pairs : List (Node × Port), pairs.length = 1 ∧ ∀ node port,
        (node, port) ∈ pairs ↔ IsFirst Graph.forked.nodes node ∧
          port ∈ node.kind.outputs ∧
          Overfull Graph.forked.nodes Graph.forked.edges node port := by
  have hknown : ∀ issue ∈ edgeIssues Graph.forked.nodes Graph.forked.edges,
      issue.code ≠ .unknownPort := by decide
  obtain ⟨⟨pairs, hpairs, _, hissues⟩, _⟩ := overfull_outputs_exact hknown
  refine ⟨hknown, by decide, pairs, ?_, hpairs⟩
  rw [← hissues.length_eq]
  decide

end Flowgraph
