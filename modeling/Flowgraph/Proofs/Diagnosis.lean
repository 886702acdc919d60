import Flowgraph.Proofs.PlanOrder
import Flowgraph.Proofs.Reach

/-!
# What is wrong with a graph as a whole

Planning has three findings to report: there is nothing to start from, there is
a cycle, a node cannot be reached. They are raised nowhere else, so what a
report has of them can be read off the wiring; here they are led back to the
edges of the graph, of which those count that lead from one node to another one.

The findings depend on each other. A vertex that cannot be reached has no start
behind it, and going back from it one can only end in a circle; so it is among
those that a circle leads to, which are the ones that a cycle is reported with.
In the same way a graph that has nodes and no start has a circle.
-/

namespace Flowgraph

variable {nodes : List Node} {edges : List Edge} {plan : Plan} {id u v : String}

/-! ## The terms of the graph -/

/-- Some edge leads from one node to another one. -/
def Linked (nodes : List Node) (edges : List Edge) (u v : String) : Prop :=
  Joined edges u v ∧ u ≠ v ∧
    (∃ node ∈ nodes, node.id = u) ∧ ∃ node ∈ nodes, node.id = v

instance (nodes : List Node) (edges : List Edge) (u v : String) :
    Decidable (Linked nodes edges u v) :=
  inferInstanceAs (Decidable ((∃ edge ∈ edges, _) ∧ _))

/-- A circle of edges leads from a node back to it. -/
def OnCircle (nodes : List Node) (edges : List Edge) (id : String) : Prop :=
  Relation.TransGen (Linked nodes edges) id id

/-- A node on a circle or behind one. -/
def BehindCircle (nodes : List Node) (edges : List Edge) (id : String) : Prop :=
  ∃ u, OnCircle nodes edges u ∧ Relation.ReflTransGen (Linked nodes edges) u id

/-- A node that no edge leads to. -/
def IsStart (nodes : List Node) (edges : List Edge) (id : String) : Prop :=
  (∃ node ∈ nodes, node.id = id) ∧ ∀ u, ¬ Linked nodes edges u id

/-- Ids in the order in which the nodes have them first, each of them once. -/
def InNodeOrder (nodes : List Node) (ids : List String) : Prop :=
  ids.Pairwise fun a b =>
    (nodes.map (·.id)).idxOf a < (nodes.map (·.id)).idxOf b

/-- The issues of a report that have one code. -/
def Report.issuesOf (report : Report) (code : IssueCode) : List Issue :=
  report.issues.filter (·.code = code)

/-- There is an error of one code in a report. -/
def Report.Raises (report : Report) (code : IssueCode) : Prop :=
  ∃ issue ∈ report.issues, issue.isError = true ∧ issue.code = code

instance (report : Report) (code : IssueCode) :
    Decidable (report.Raises code) :=
  inferInstanceAs (Decidable (∃ issue ∈ report.issues, _))

/-- The error of a cycle, with the ids that have no place in the order. -/
def cycleIssue (ids : List String) : Issue :=
  { Issue.error .graph .cycle "cycle detected" with
    details := some (.object [("nodes", .array (ids.map .string))])
    fixHint := some "Remove one of the edges that close the loop" }

/-- The warning of a node that is out of reach. -/
def unreachableIssue (id : String) : Issue :=
  { Issue.warning .graph .unreachableNode
      "node is not reachable from any start node" with nodeId := some id }

/-! ## The wiring in these terms -/

theorem feeds_wiring_eq_linked (nodes : List Node) (edges : List Edge) :
    (wiring nodes edges).Feeds = Linked nodes edges := by
  funext u v
  rw [eq_iff_iff, feeds_wiring]
  simp only [mem_connecting, connects_iff, findNode?_isSome]
  constructor
  · rintro ⟨edge, ⟨hedge, hne, hsource, htarget⟩, rfl, rfl⟩
    exact ⟨⟨edge, hedge, rfl, rfl⟩, hne, hsource, htarget⟩
  · rintro ⟨⟨edge, hedge, rfl, rfl⟩, hne, hsource, htarget⟩
    exact ⟨edge, ⟨hedge, hne, hsource, htarget⟩, rfl, rfl⟩

theorem mem_starts_wiring :
    id ∈ (wiring nodes edges).starts ↔ IsStart nodes edges id := by
  rw [Wiring.mem_starts, feeds_wiring_eq_linked]
  exact and_congr_left fun _ => mem_nodeIds

theorem mem_unordered_wiring :
    id ∈ (wiring nodes edges).unordered ↔ BehindCircle nodes edges id := by
  have hsound := wiring_sound nodes edges
  rw [hsound.mem_unordered, Wiring.Leads, Wiring.Reaches,
    feeds_wiring_eq_linked]
  refine and_iff_right_of_imp ?_
  rintro ⟨u, hcircle, hpath⟩
  rw [← feeds_wiring_eq_linked] at hcircle hpath
  rcases Relation.reflTransGen_iff_eq_or_transGen.mp hpath with rfl | hleads
  · exact (hsound.mem_of_leads hcircle).1
  · exact (hsound.mem_of_leads hleads).2

theorem mem_unreachable_wiring : id ∈ (wiring nodes edges).unreachable ↔
    (∃ node ∈ nodes, node.id = id) ∧ ∀ start, IsStart nodes edges start →
      ¬ Relation.ReflTransGen (Linked nodes edges) start id := by
  rw [(wiring_sound nodes edges).mem_unreachable, Wiring.Reaches,
    feeds_wiring_eq_linked, not_exists]
  simp only [not_and, mem_starts_wiring]
  exact and_congr_left fun _ => mem_nodeIds

/-- What is picked from the vertices keeps to the order of the nodes. -/
theorem inNodeOrder_filter (nodes : List Node) (p : String → Bool) :
    InNodeOrder nodes ((nodeIds nodes).filter p) :=
  (pairwise_idxOf_eraseDups _).filter p

/-- What cannot be reached has no place in the order either. -/
theorem Wiring.Sound.unreachable_subset {w : Wiring String} (h : w.Sound) :
    w.unreachable ⊆ w.unordered := by
  intro v hv
  obtain ⟨hvertex, hfar⟩ := h.mem_unreachable.mp hv
  refine h.mem_unordered.mpr ⟨hvertex, ?_⟩
  by_contra hno
  exact hfar (h.exists_start hvertex fun u hpath hcircle =>
    hno ⟨u, hcircle, hpath⟩)

/-! ## The report in these terms -/

/-- The issues of one code, check by check. -/
theorem issuesOf_eq (code : IssueCode) : (validate nodes edges).issuesOf code =
    (if .duplicateNodeId = code then duplicateIssues nodes else []) ++
      (nodes.flatMap Node.fieldIssues).filter (·.code = code) ++
      ((edgeIssues nodes edges).filter (·.code = code) ++
        (if .missingRequiredInput = code then inputIssues nodes edges
          else []) ++
        (if .tooManyConnections = code then outputIssues nodes edges
          else [])) ++
      (wiring nodes edges).issues.filter (·.code = code) := by
  simp only [Report.issuesOf, issues_validate, List.filter_append,
    filter_code fun _ => code_of_mem_duplicateIssues,
    filter_code fun _ => code_of_mem_inputIssues,
    filter_code fun _ => code_of_mem_outputIssues]

/-- The codes that planning raises are raised by nothing else. -/
theorem issuesOf_eq_wiring {code : IssueCode}
    (hcode : code ∈ [.noStartNode, .cycle, .unreachableNode]) :
    (validate nodes edges).issuesOf code =
      (wiring nodes edges).issues.filter (·.code = code) := by
  simp only [List.mem_cons, List.not_mem_nil, or_false] at hcode
  rcases hcode with rfl | rfl | rfl
  all_goals
    rw [issuesOf_eq, filter_code_fieldIssues (by decide),
      filter_code_edgeIssues (by decide)]
    rfl

/-- The codes of the checks that have one of their own are raised by nothing
else. -/
theorem issuesOf_eq_own {code : IssueCode} (hcode : code ∈
      [.duplicateNodeId, .missingRequiredInput, .tooManyConnections]) :
    (validate nodes edges).issuesOf code =
      (if .duplicateNodeId = code then duplicateIssues nodes else []) ++
        (if .missingRequiredInput = code then inputIssues nodes edges
          else []) ++
        (if .tooManyConnections = code then outputIssues nodes edges
          else []) := by
  rw [issuesOf_eq]
  simp only [List.mem_cons, List.not_mem_nil, or_false] at hcode
  rcases hcode with rfl | rfl | rfl
  all_goals
    rw [filter_code_fieldIssues (by decide), filter_code_edgeIssues (by decide),
      filter_code_of_not_mem (fun _ => code_of_mem_wiringIssues) (by decide)]
    simp

theorem issuesOf_missingRequiredInput :
    (validate nodes edges).issuesOf .missingRequiredInput =
      inputIssues nodes edges :=
  (issuesOf_eq_own (by decide)).trans (List.append_nil _)

theorem issuesOf_tooManyConnections :
    (validate nodes edges).issuesOf .tooManyConnections =
      outputIssues nodes edges :=
  issuesOf_eq_own (by decide)

theorem filter_code_wiring (w : Wiring String) (code : IssueCode) :
    w.issues.filter (·.code = code) =
      (if .noStartNode = code then w.startIssues else []) ++
      (if .cycle = code then w.cycleIssues else []) ++
      (if .unreachableNode = code then w.reachIssues else []) := by
  rw [Wiring.issues, List.filter_append, List.filter_append,
    filter_code fun _ => code_of_mem_startIssues,
    filter_code fun _ => code_of_mem_cycleIssues,
    filter_code fun _ => code_of_mem_reachIssues]

theorem issuesOf_noStartNode :
    (validate nodes edges).issuesOf .noStartNode =
      (wiring nodes edges).startIssues := by
  rw [issuesOf_eq_wiring (by decide), filter_code_wiring]
  exact (List.append_nil _).trans (List.append_nil _)

theorem issuesOf_cycle : (validate nodes edges).issuesOf .cycle =
    if (wiring nodes edges).unordered = [] then []
    else [cycleIssue (wiring nodes edges).unordered] := by
  rw [issuesOf_eq_wiring (by decide), filter_code_wiring]
  refine (List.append_nil _).trans ?_
  have hcycle :=
    (wiring_sound nodes edges).hasCycle_eq_false_iff_unordered
  change (wiring nodes edges).cycleIssues = _
  rw [Wiring.cycleIssues]
  split
  · next hsome =>
      rw [if_neg fun hnone => by simp [hcycle.mpr hnone] at hsome]
      rfl
  · next hnone => rw [if_pos (hcycle.mp (Bool.eq_false_of_not_eq_true hnone))]

theorem issuesOf_unreachableNode :
    (validate nodes edges).issuesOf .unreachableNode =
      (wiring nodes edges).unreachable.map unreachableIssue := by
  rw [issuesOf_eq_wiring (by decide), filter_code_wiring]
  rfl

theorem raises_iff {report : Report} {code : IssueCode} :
    report.Raises code ↔
      ∃ issue ∈ report.issuesOf code, issue.isError = true := by
  simp only [Report.Raises, Report.issuesOf, List.mem_filter,
    decide_eq_true_eq, and_assoc]
  exact exists_congr fun _ => and_congr_right fun _ => and_comm

theorem raises_cycle_iff : (validate nodes edges).Raises .cycle ↔
    (wiring nodes edges).unordered ≠ [] := by
  rw [raises_iff, issuesOf_cycle]
  split
  · next hnone => simp [hnone]
  · next hsome => exact iff_of_true ⟨_, .head _, rfl⟩ hsome

theorem raises_noStartNode_iff : (validate nodes edges).Raises .noStartNode ↔
    (wiring nodes edges).starts = [] := by
  rw [raises_iff, issuesOf_noStartNode, Wiring.startIssues]
  split
  · next hnone =>
      exact iff_of_true ⟨_, .head _, rfl⟩ (List.isEmpty_iff.mp hnone)
  · next hsome => simpa using hsome

/-! ## Cycles -/

theorem starts_eq_nil_iff : (wiring nodes edges).starts = [] ↔
    ∀ node ∈ nodes, ∃ u, Linked nodes edges u node.id := by
  rw [List.eq_nil_iff_forall_not_mem]
  simp only [mem_starts_wiring, IsStart, not_and, not_forall, not_not]
  constructor
  · exact fun h node hnode => h node.id ⟨node, hnode, rfl⟩
  · rintro h _ ⟨node, hnode, rfl⟩
    exact h node hnode

theorem unordered_ne_nil_iff : (wiring nodes edges).unordered ≠ [] ↔
    ∃ id, OnCircle nodes edges id := by
  rw [ne_eq, List.eq_nil_iff_forall_not_mem, not_forall]
  simp only [not_not, mem_unordered_wiring]
  constructor
  · rintro ⟨_, u, hcircle, _⟩
    exact ⟨u, hcircle⟩
  · rintro ⟨u, hcircle⟩
    exact ⟨u, u, hcircle, .refl⟩

/-- A cycle is reported exactly where there is a circle, once, and with the
nodes on circles and behind them. That there is no start is reported where every
node is fed, and then there is a cycle too unless there are no nodes. -/
theorem cycle_error_names_circles (nodes : List Node) (edges : List Edge) :
    ((validate nodes edges).Raises .cycle ↔
      ∃ id, OnCircle nodes edges id) ∧
    (∃ ids, InNodeOrder nodes ids ∧
      (∀ id, id ∈ ids ↔ BehindCircle nodes edges id) ∧
      (validate nodes edges).issuesOf .cycle =
        if ids = [] then [] else [cycleIssue ids]) ∧
    ((validate nodes edges).Raises .noStartNode ↔
      nodes = [] ∨ ∀ node ∈ nodes, ∃ u, Linked nodes edges u node.id) ∧
    (nodes ≠ [] → (validate nodes edges).Raises .noStartNode →
      (validate nodes edges).Raises .cycle) := by
  have hsound := wiring_sound nodes edges
  refine ⟨raises_cycle_iff.trans unordered_ne_nil_iff,
    ⟨_, inNodeOrder_filter nodes _, fun _ => mem_unordered_wiring,
      issuesOf_cycle⟩, ?_, fun hne hstart => ?_⟩
  · rw [raises_noStartNode_iff, starts_eq_nil_iff]
    refine (or_iff_right_of_imp ?_).symm
    rintro rfl
    exact fun _ hnode => absurd hnode List.not_mem_nil
  · rw [raises_cycle_iff, ne_eq, ← hsound.hasCycle_eq_false_iff_unordered]
    intro hcycle
    exact hsound.starts_ne_nil hcycle (nodeIds_ne_nil.mpr hne)
      (raises_noStartNode_iff.mp hstart)

/-- Two nodes that feed each other, with a third one behind them. -/
def Graph.knot : Graph where
  nodes := [
    .new "tail" .output, .new "left" (.text {}), .new "right" (.text {})]
  edges := [
    ⟨"e1", { nodeId := "left" }, { nodeId := "right" }⟩,
    ⟨"e2", { nodeId := "right" }, { nodeId := "left" }⟩,
    ⟨"e3", { nodeId := "right" }, { nodeId := "tail" }⟩]

theorem cycle_error_names_circles_knot :
    Graph.knot.nodes ≠ [] ∧ Graph.knot.validate.Raises .noStartNode ∧
      Graph.knot.validate.Raises .cycle ∧
      (∃ id, OnCircle Graph.knot.nodes Graph.knot.edges id) ∧
      Graph.knot.validate.issuesOf .cycle =
        [cycleIssue ["tail", "left", "right"]] := by
  have hne : Graph.knot.nodes ≠ [] := by decide
  have hstart : Graph.knot.validate.Raises .noStartNode := by decide
  obtain ⟨hcircle, _, _, hcycle⟩ :=
    cycle_error_names_circles Graph.knot.nodes Graph.knot.edges
  exact ⟨hne, hstart, hcycle hne hstart, hcircle.mp (hcycle hne hstart),
    by decide⟩

/-! ## Reach -/

/-- The nodes out of reach are those that no path leads to from a start. Each of
them is warned of, has no place in the order and is named by the error of a
cycle; so there are none in a plan. -/
theorem unreachable_lie_behind_circles (nodes : List Node)
    (edges : List Edge) :
    InNodeOrder nodes (wiring nodes edges).unreachable ∧
    (∀ id, id ∈ (wiring nodes edges).unreachable ↔
      (∃ node ∈ nodes, node.id = id) ∧ ∀ start, IsStart nodes edges start →
        ¬ Relation.ReflTransGen (Linked nodes edges) start id) ∧
    (validate nodes edges).issuesOf .unreachableNode =
      (wiring nodes edges).unreachable.map unreachableIssue ∧
    (∀ id ∈ (wiring nodes edges).unreachable,
      id ∉ (wiring nodes edges).order ∧
        ∃ ids, (validate nodes edges).issuesOf .cycle = [cycleIssue ids] ∧
          id ∈ ids) ∧
    ((∃ issue ∈ (validate nodes edges).issues,
        issue.code = .unreachableNode) →
      (validate nodes edges).Raises .cycle) ∧
    ∀ plan, (validate nodes edges).plan = some plan →
      plan.unreachableNodes = [] := by
  have hsound := wiring_sound nodes edges
  have hsub := hsound.unreachable_subset
  refine ⟨inNodeOrder_filter nodes _, fun _ => mem_unreachable_wiring,
    issuesOf_unreachableNode, fun id hid => ⟨?_, ?_⟩, ?_, fun plan hplan => ?_⟩
  · simpa using (List.mem_filter.mp (hsub hid)).2
  · refine ⟨_, ?_, hsub hid⟩
    rw [issuesOf_cycle, if_neg (List.ne_nil_of_mem (hsub hid))]
  · rintro ⟨issue, hissue, hcode⟩
    have hmem : issue ∈ (validate nodes edges).issuesOf .unreachableNode :=
      List.mem_filter.mpr ⟨hissue, decide_eq_true hcode⟩
    rw [issuesOf_unreachableNode] at hmem
    obtain ⟨id, hid, _⟩ := List.mem_map.mp hmem
    exact raises_cycle_iff.mpr (List.ne_nil_of_mem (hsub hid))
  · obtain ⟨hcycle, rfl⟩ := Wiring.plan?_eq_some.mp (wellFormed_of_plan hplan).2
    rw [hsound.hasCycle_eq_false_iff_unordered] at hcycle
    exact List.eq_nil_of_subset_nil (hcycle ▸ hsub)

/-- The knot is out of reach, and the diamond has a plan. -/
theorem unreachable_lie_behind_circles_knot :
    (∃ issue ∈ Graph.knot.validate.issues, issue.code = .unreachableNode) ∧
      Graph.knot.validate.Raises .cycle ∧
      (wiring Graph.knot.nodes Graph.knot.edges).unreachable =
        ["tail", "left", "right"] ∧
      ∃ plan, diamond.validate.plan = some plan ∧
        plan.unreachableNodes = [] := by
  have hfar : ∃ issue ∈ Graph.knot.validate.issues,
      issue.code = .unreachableNode := by decide
  obtain ⟨_, _, _, _, hcycle, _⟩ :=
    unreachable_lie_behind_circles Graph.knot.nodes Graph.knot.edges
  obtain ⟨_, _, _, _, _, hplans⟩ :=
    unreachable_lie_behind_circles diamond.nodes diamond.edges
  have hplanned : diamond.validate.plan.isSome := by decide
  obtain ⟨plan, hplan⟩ := Option.isSome_iff_exists.mp hplanned
  exact ⟨hfar, hcycle hfar, by decide, plan, hplan, hplans plan hplan⟩

end Flowgraph
