import Flowgraph.Proofs.Diagnosis
import Flowgraph.Proofs.Runs

/-!
# Repeated ids

An id stands for the first node that has it, and a node whose id is taken stands
for nothing. It is reported, and so are its fields; but no edge can mean it, the
planner has no vertex for it and a run never comes to it. So it can be left out:
what is found out about edges and about the graph as a whole is the same without
it, and every plan is run in the same way.

Lists of nodes are compared by `SameFirsts`: they have the same ids in the same
order of first occurrence, and each id stands for the same node. That is all
that edges, planning and runs see of nodes. A node can be left out wherever it
repeats an id, and leaving out all of them is an induction along the list, from
its end.
-/

namespace Flowgraph

variable {nodes nodes' nodes'' : List Node} {node : Node} {plan : Plan}
  {work work' : Work} {cancelled : Cancellation} {stamp : Stamp}

/-! ## Leaving nodes out -/

/-- The node at a place has the id of a node in front of it. -/
def Repeated (nodes : List Node) (entry : Node × Nat) : Prop :=
  ∃ other ∈ nodes.take entry.2, other.id = entry.1.id

instance (entry : Node × Nat) : Decidable (Repeated nodes entry) :=
  inferInstanceAs (Decidable (∃ other ∈ _, _))

/-- The nodes that repeat an id, as they are listed. -/
def repeats (nodes : List Node) : List Node :=
  (nodes.zipIdx.filter (Repeated nodes ·)).map (·.1)

/-- The nodes less those that repeat an id, as they are listed. -/
def withoutRepeats (nodes : List Node) : List Node :=
  (nodes.zipIdx.filter (¬ Repeated nodes ·)).map (·.1)

theorem length_repeats_add (nodes : List Node) :
    (repeats nodes).length + (withoutRepeats nodes).length = nodes.length := by
  have hsplit := List.length_eq_length_filter_add (l := nodes.zipIdx)
    fun entry => decide (Repeated nodes entry)
  simp only [repeats, withoutRepeats, List.length_map, decide_not]
  rw [← hsplit, List.length_zipIdx]

/-! Both lists are read from the end: a node behind the others is in one of them
and changes nothing about what is in front of it. -/

theorem repeated_concat {entry : Node × Nat} (h : entry ∈ nodes.zipIdx) :
    Repeated (nodes ++ [node]) entry ↔ Repeated nodes entry := by
  have hplace : entry.2 ≤ nodes.length :=
    Nat.le_of_lt (List.mem_zipIdx' h).1
  rw [Repeated, List.take_append_of_le_length hplace, Repeated]

theorem repeated_last : Repeated (nodes ++ [node]) (node, nodes.length) ↔
    ∃ other ∈ nodes, other.id = node.id := by
  rw [Repeated, List.take_left]

theorem map_filter_zipIdx_concat {p q : Node × Nat → Bool}
    (h : ∀ entry ∈ nodes.zipIdx, q entry = p entry) :
    ((nodes ++ [node]).zipIdx.filter q).map (·.1) =
      (nodes.zipIdx.filter p).map (·.1) ++
        if q (node, nodes.length) then [node] else [] := by
  have hzip : (nodes ++ [node]).zipIdx =
      nodes.zipIdx ++ [(node, nodes.length)] := by
    rw [List.zipIdx_append, Nat.zero_add]
    rfl
  rw [hzip, List.filter_append, List.filter_congr h, List.map_append]
  congr 1
  by_cases hlast : q (node, nodes.length) = true
  · rw [List.filter_cons_of_pos hlast, if_pos hlast]
    rfl
  · rw [List.filter_cons_of_neg hlast, if_neg hlast]
    rfl

theorem repeats_concat (nodes : List Node) (node : Node) :
    repeats (nodes ++ [node]) = repeats nodes ++
      if ∃ other ∈ nodes, other.id = node.id then [node] else [] := by
  have hfront : ∀ entry ∈ nodes.zipIdx,
      decide (Repeated (nodes ++ [node]) entry) =
        decide (Repeated nodes entry) := fun _ hentry =>
    decide_eq_decide.mpr (repeated_concat hentry)
  rw [repeats, map_filter_zipIdx_concat hfront, repeats]
  simp only [decide_eq_true_eq, repeated_last]

theorem withoutRepeats_concat (nodes : List Node) (node : Node) :
    withoutRepeats (nodes ++ [node]) = withoutRepeats nodes ++
      if ∃ other ∈ nodes, other.id = node.id then [] else [node] := by
  have hfront : ∀ entry ∈ nodes.zipIdx,
      decide (¬ Repeated (nodes ++ [node]) entry) =
        decide (¬ Repeated nodes entry) := fun _ hentry =>
    decide_eq_decide.mpr (not_congr (repeated_concat hentry))
  rw [withoutRepeats, map_filter_zipIdx_concat hfront, withoutRepeats]
  simp only [decide_eq_true_eq, repeated_last, ite_not]

/-! ## Lists in which ids stand for the same nodes -/

/-- The same ids come first in the same order, and each of them stands for the
same node. -/
structure SameFirsts (nodes nodes' : List Node) : Prop where
  find_eq : findNode? nodes = findNode? nodes'
  ids_eq : nodeIds nodes = nodeIds nodes'

namespace SameFirsts

theorem trans (h : SameFirsts nodes nodes') (h' : SameFirsts nodes' nodes'') :
    SameFirsts nodes nodes'' :=
  ⟨h.find_eq.trans h'.find_eq, h.ids_eq.trans h'.ids_eq⟩

/-- Nodes behind both lists make no difference between them. -/
theorem append (h : SameFirsts nodes nodes') (rest : List Node) :
    SameFirsts (nodes ++ rest) (nodes' ++ rest) where
  find_eq := by
    funext id
    have hid := congrFun h.find_eq id
    rw [findNode?, findNode?] at hid
    rw [findNode?, List.find?_append, hid, findNode?, List.find?_append]
  ids_eq := by
    have hids := h.ids_eq
    have hnew : (rest.map (·.id)).removeAll (nodes.map (·.id)) =
        (rest.map (·.id)).removeAll (nodes'.map (·.id)) := by
      refine List.filter_congr fun id _ => ?_
      have hmem : id ∈ nodeIds nodes ↔ id ∈ nodeIds nodes' := by rw [hids]
      rw [nodeIds, nodeIds, List.mem_eraseDups, List.mem_eraseDups] at hmem
      simp [hmem]
    rw [nodeIds, List.map_append, List.eraseDups_append, hnew, ← nodeIds, hids,
      nodeIds, ← List.eraseDups_append, ← List.map_append, nodeIds]

/-- A node whose id is taken makes none either. -/
theorem concat (h : ∃ other ∈ nodes, other.id = node.id) :
    SameFirsts (nodes ++ [node]) nodes where
  find_eq := by
    funext id
    rw [findNode?, List.find?_append]
    by_cases hid : node.id = id
    · obtain ⟨found, hfound⟩ := Option.isSome_iff_exists.mp
        (findNode?_isSome.mpr (hid ▸ h))
      rw [findNode?] at hfound
      rw [hfound, Option.some_or, findNode?, hfound]
    · simp [findNode?, hid]
  ids_eq := by
    obtain ⟨other, hother, hid⟩ := h
    rw [nodeIds, List.map_append, eraseDups_append_of_subset, nodeIds]
    intro id hmem
    obtain rfl := List.mem_singleton.mp hmem
    exact List.mem_map.mpr ⟨other, hother, hid⟩

variable (h : SameFirsts nodes nodes') (edges : List Edge)
include h

theorem firstNodes_eq : firstNodes nodes = firstNodes nodes' := by
  rw [firstNodes, h.ids_eq, h.find_eq, firstNodes]

theorem connecting_eq : connecting nodes edges = connecting nodes' edges :=
  connecting_eq_of_find h.find_eq edges

theorem wiring_eq : wiring nodes edges = wiring nodes' edges := by
  rw [wiring, h.ids_eq, h.connecting_eq, wiring]

theorem inputIssues_eq :
    inputIssues nodes edges = inputIssues nodes' edges := by
  rw [inputIssues, h.firstNodes_eq, h.connecting_eq, inputIssues]

theorem outputIssues_eq :
    outputIssues nodes edges = outputIssues nodes' edges := by
  rw [outputIssues, h.firstNodes_eq, h.connecting_eq, outputIssues]

theorem connectionIssues_eq :
    connectionIssues nodes edges = connectionIssues nodes' edges := by
  rw [connectionIssues, edgeIssues_eq_of_find h.find_eq, h.inputIssues_eq,
    h.outputIssues_eq, connectionIssues]

theorem runPlan_eq : runPlan stamp nodes plan work cancelled =
    runPlan stamp nodes' plan work cancelled := by
  rw [runPlan_eq_map, resolve, h.find_eq, runPlan_eq_map, resolve]

end SameFirsts

/-- Any of the nodes that repeat an id can be left out. -/
theorem sameFirsts_leaveOut {front : List Node} (back : List Node)
    (h : ∃ other ∈ front, other.id = node.id) :
    SameFirsts (front ++ node :: back) (front ++ back) := by
  rw [List.append_cons]
  exact (SameFirsts.concat h).append back

/-- All of them can be left out. -/
theorem sameFirsts_withoutRepeats (nodes : List Node) :
    SameFirsts nodes (withoutRepeats nodes) := by
  induction nodes using List.reverseRecOn with
  | nil => exact ⟨rfl, rfl⟩
  | append_singleton front node ih =>
      rw [withoutRepeats_concat]
      split
      · next htaken =>
          rw [List.append_nil]
          exact (SameFirsts.concat htaken).trans ih
      · exact ih.append [node]

theorem map_id_withoutRepeats (nodes : List Node) :
    (withoutRepeats nodes).map (·.id) = nodeIds nodes := by
  induction nodes using List.reverseRecOn with
  | nil => rfl
  | append_singleton front node ih =>
      rw [withoutRepeats_concat]
      split
      · next htaken =>
          rw [List.append_nil, ih, (SameFirsts.concat htaken).ids_eq]
      · next hnew =>
          have hnode : node.id ∉ front.map (·.id) := by simpa using hnew
          rw [List.map_append, ih, nodeIds, nodeIds, List.map_append,
            List.map_singleton, eraseDups_concat, if_neg hnode]

/-! ## What is reported of them -/

theorem repeatedNodesFrom_concat (seen : List String) :
    repeatedNodesFrom seen (nodes ++ [node]) = repeatedNodesFrom seen nodes ++
      if node.id ∈ seen ∨ ∃ other ∈ nodes, other.id = node.id then [node]
      else [] := by
  induction nodes generalizing seen with
  | nil => simp [repeatedNodesFrom]
  | cons first rest ih =>
      rw [List.cons_append, repeatedNodesFrom, repeatedNodesFrom]
      split
      · next hseen =>
          have hsame : (node.id ∈ seen ∨
              ∃ other ∈ first :: rest, other.id = node.id) ↔
              node.id ∈ seen ∨ ∃ other ∈ rest, other.id = node.id := by
            have himp : first.id = node.id → node.id ∈ seen :=
              fun hid => hid ▸ hseen
            simp only [List.mem_cons, exists_eq_or_imp]
            rw [← or_assoc, or_iff_left_of_imp himp]
          rw [ih, List.cons_append, if_congr hsame rfl rfl]
      · have hsame : (node.id ∈ seen ∨
            ∃ other ∈ first :: rest, other.id = node.id) ↔
            node.id ∈ first.id :: seen ∨
              ∃ other ∈ rest, other.id = node.id := by
          simp only [List.mem_cons, exists_eq_or_imp]
          rw [or_left_comm, or_assoc, eq_comm]
        rw [ih, if_congr hsame rfl rfl]

theorem repeatedNodesFrom_eq_repeats (nodes : List Node) :
    repeatedNodesFrom [] nodes = repeats nodes := by
  induction nodes using List.reverseRecOn with
  | nil => rfl
  | append_singleton front node ih =>
      rw [repeatedNodesFrom_concat, repeats_concat, ih]
      simp only [List.not_mem_nil, false_or]

theorem issuesOf_duplicateNodeId (nodes : List Node) (edges : List Edge) :
    (validate nodes edges).issuesOf .duplicateNodeId =
      (repeats nodes).map Node.duplicateId := by
  rw [issuesOf_eq_own (by decide), ← repeatedNodesFrom_eq_repeats]
  simp [duplicateIssues]

/-- The codes of what is wrong with nodes by themselves. -/
def nodeCodes : List IssueCode :=
  [.duplicateNodeId, .missingRequiredField, .invalidField]

/-- Apart from issues of the nodes themselves, a report is the same without
those that repeat an id. -/
theorem filter_issues_withoutRepeats (nodes : List Node) (edges : List Edge) :
    (validate nodes edges).issues.filter (·.code ∉ nodeCodes) =
      (validate (withoutRepeats nodes) edges).issues.filter
        (·.code ∉ nodeCodes) := by
  have hsame := sameFirsts_withoutRepeats nodes
  have hconnections := hsame.connectionIssues_eq edges
  have hids (nodes : List Node) :
      (duplicateIssues nodes).filter (·.code ∉ nodeCodes) = [] := by
    refine List.filter_eq_nil_iff.mpr fun issue hissue => ?_
    simp [code_of_mem_duplicateIssues hissue, nodeCodes]
  have hfields (nodes : List Node) :
      (nodes.flatMap Node.fieldIssues).filter (·.code ∉ nodeCodes) = [] := by
    refine List.filter_eq_nil_iff.mpr fun issue hissue => ?_
    obtain ⟨node, _, hissue⟩ := List.mem_flatMap.mp hissue
    rw [decide_eq_true_eq, not_not]
    exact List.mem_cons_of_mem _ (code_of_mem_fieldIssues hissue)
  rw [connectionIssues, connectionIssues] at hconnections
  rw [issues_validate, issues_validate, hconnections, hsame.wiring_eq]
  simp only [List.filter_append, hids, hfields]

/-! ## Runs -/

theorem runNodes_congr {order : List Node}
    (h : ∀ node ∈ order, work node = work' node) (p : Progress) :
    runNodes work cancelled order p = runNodes work' cancelled order p := by
  induction order generalizing p with
  | nil => rfl
  | cons node rest ih =>
      obtain ⟨hnode, hrest⟩ := List.forall_mem_cons.mp h
      simp only [runNodes, hnode, ih hrest]

/-- Only the work of nodes that ids stand for is ever done. -/
theorem runPlan_congr
    (h : ∀ id node, findNode? nodes id = some node → work node = work' node) :
    runPlan stamp nodes plan work cancelled =
      runPlan stamp nodes plan work' cancelled := by
  rw [runPlan_eq_map, runPlan_eq_map]
  cases hresolve : resolve nodes plan.nodesInOrder with
  | error fault => rfl
  | ok order =>
      have hfound := (resolve_eq_ok.mp hresolve).2
      have hwork : ∀ node ∈ order, work node = work' node :=
        fun node hnode => h node.id node (hfound node hnode)
      show Except.ok ((Course.of _ _ work _).outcome _) =
        .ok ((Course.of _ _ work' _).outcome _)
      rw [Course.of, runNodes_congr hwork, Course.of]

/-- The nodes of a run are those that the ids of the plan stand for. -/
theorem exists_order_of_runPlan {outcome : Outcome}
    (h : runPlan stamp nodes plan work cancelled = .ok outcome) :
    ∃ order, order.map some = plan.nodesInOrder.map (findNode? nodes) ∧
      (Course.of stamp.id order work cancelled).outcome stamp = outcome := by
  obtain ⟨order, hresolve, houtcome⟩ := runPlan_eq_ok.mp h
  obtain ⟨hids, hfound⟩ := resolve_eq_ok.mp hresolve
  refine ⟨order, ?_, houtcome⟩
  rw [← hids, List.map_map]
  exact List.map_congr_left fun node hnode => (hfound node hnode).symm

/-- The first node of an id is the one that counts. Without the nodes that
repeat an id nothing changes in what is reported of edges and of the graph as a
whole, nor in what planning finds; each of these nodes has its one error. And a
run takes for every id of its plan the node that the graph has for it, so what
is listed behind that node, whatever it is, changes neither the outcome nor the
work that is done. -/
theorem repeats_can_be_left_out (nodes : List Node) (edges : List Edge) :
    (validate nodes edges).issues.filter (·.code ∉ nodeCodes) =
      (validate (withoutRepeats nodes) edges).issues.filter
        (·.code ∉ nodeCodes) ∧
    ((validate nodes edges).issuesOf .duplicateNodeId).map Issue.unworded =
      ((repeats nodes).map fun node =>
        { Issue.error .graph .duplicateNodeId "" with
          nodeId := some node.id }) ∧
    (repeats nodes).length + (withoutRepeats nodes).length = nodes.length ∧
    (validate (withoutRepeats nodes) edges).issuesOf .duplicateNodeId = [] ∧
    (wiring nodes edges).starts =
      (wiring (withoutRepeats nodes) edges).starts ∧
    (wiring nodes edges).order = (wiring (withoutRepeats nodes) edges).order ∧
    (wiring nodes edges).unreachable =
      (wiring (withoutRepeats nodes) edges).unreachable ∧
    ∀ (plan : Plan) stamp work cancelled,
      runPlan stamp nodes plan work cancelled =
        runPlan stamp (withoutRepeats nodes) plan work cancelled ∧
      (∀ outcome, runPlan stamp nodes plan work cancelled = .ok outcome →
        ∃ order,
          order.map some = plan.nodesInOrder.map (Graph.node? ⟨nodes, edges⟩) ∧
          (Course.of stamp.id order work cancelled).outcome stamp = outcome) ∧
      ∀ work', (∀ id node, Graph.node? ⟨nodes, edges⟩ id = some node →
          work node = work' node) →
        runPlan stamp nodes plan work cancelled =
          runPlan stamp nodes plan work' cancelled := by
  have hsame := sameFirsts_withoutRepeats nodes
  have hwiring := hsame.wiring_eq edges
  have hnodup : ((withoutRepeats nodes).map (·.id)).Nodup :=
    map_id_withoutRepeats nodes ▸ nodeIds_nodup nodes
  refine ⟨filter_issues_withoutRepeats nodes edges, ?_,
    length_repeats_add nodes, ?_, congrArg Wiring.starts hwiring,
    congrArg Wiring.order hwiring, congrArg Wiring.unreachable hwiring,
    fun plan stamp work cancelled => ⟨hsame.runPlan_eq,
      fun outcome => exists_order_of_runPlan, fun work' => runPlan_congr⟩⟩
  · rw [issuesOf_duplicateNodeId, List.map_map]
    rfl
  · rw [issuesOf_duplicateNodeId, ← repeatedNodesFrom_eq_repeats]
    exact duplicateIssues_eq_nil.mpr hnodup

/-- A chain in which two ids are repeated: that of its first node by a disabled
output, that of its second one by a step that lacks its model. -/
def Graph.echoed : Graph where
  nodes := [
    .new "start" .trigger, .new "next" (.text {}),
    { id := "start", enabled := false, config := .output },
    .new "end" .output, .new "next" (.llm {})]
  edges := [
    ⟨"e1", { nodeId := "start" }, { nodeId := "next" }⟩,
    ⟨"e2", { nodeId := "next" }, { nodeId := "end" }⟩]

/-- The plan of the chain is run among all nodes, with work that would fail in
the nodes that repeat an id. -/
theorem repeats_can_be_left_out_echoed :
    (repeats Graph.echoed.nodes).map (·.id) = ["start", "next"] ∧
      (Graph.echoed.validate.issues.map (·.code) =
        [.duplicateNodeId, .duplicateNodeId, .missingRequiredField]) ∧
      ∃ plan, (validate (withoutRepeats Graph.echoed.nodes)
          Graph.echoed.edges).plan = some plan ∧
        ∀ stamp : Stamp,
          runPlan stamp Graph.echoed.nodes plan
              (fun node => if node.enabled ∧ node.kind ≠ .llm then .ok ()
                else .error (.simulated node.id)) .never =
            runPlan stamp (withoutRepeats Graph.echoed.nodes) plan
              (Simulation.work {}) .never := by
  obtain ⟨_, _, _, _, _, _, _, hruns⟩ :=
    repeats_can_be_left_out Graph.echoed.nodes Graph.echoed.edges
  have hplan : (validate (withoutRepeats Graph.echoed.nodes)
      Graph.echoed.edges).plan.isSome := by decide
  obtain ⟨plan, hplan⟩ := Option.isSome_iff_exists.mp hplan
  refine ⟨by decide, by decide, plan, hplan, fun stamp => ?_⟩
  obtain ⟨hleft, _, hwork⟩ := hruns plan stamp (Simulation.work {}) .never
  refine (hwork _ fun id node hnode => ?_).symm.trans hleft
  have hfirsts : ∀ node ∈ Graph.echoed.nodes,
      findNode? Graph.echoed.nodes node.id = some node →
        node.enabled ∧ node.kind ≠ .llm := by decide
  have hmem : node ∈ Graph.echoed.nodes := findNode?_mem hnode
  have hfirst : findNode? Graph.echoed.nodes node.id = some node := by
    rw [findNode?_id hnode]
    exact hnode
  rw [if_pos (hfirsts node hmem hfirst)]
  rfl

end Flowgraph
