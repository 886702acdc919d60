import Flowgraph.Proofs.Ends
import Flowgraph.Proofs.PlanOrder

/-!
# The order in which a graph is listed

Two lists of the same edges, or of the same nodes under distinct ids, describe
one graph, and validation comes to one verdict on it: the same findings, counted
alike, and a plan for both or for neither.

The findings are not quite the same lists. With the edges in another order,
another one of several equal connections is the first, so the warnings name
other edges; `Issue.unblamed` leaves that name out. With the nodes in another
order, the details of a cycle list its nodes in that order; `Issue.undetailed`
leaves the details out. Apart from this one list of issues is a permutation of
the other, and since neither change touches what is counted, the counts agree.

What planning makes of the graph depends on links alone and is the business of
`Wiring.Alike`.
-/

namespace Flowgraph

variable {nodes nodes' : List Node} {edges edges' : List Edge} {edge : Edge}

/-! ## Verdicts -/

/-- Equally many findings of each sort, and a plan in both reports or in
neither. -/
structure SameVerdict (a b : Report) : Prop where
  errors_eq : a.errors = b.errors
  warnings_eq : a.warnings = b.warnings
  missing_eq : a.missingRequiredCount = b.missingRequiredCount
  plan_iff : a.plan.isSome ↔ b.plan.isSome

/-- Issues are counted by severity and code, so reports whose issues differ in
nothing else come to the same verdict. -/
theorem SameVerdict.of_perm (change : Issue → Issue)
    (hseverity : ∀ issue, (change issue).severity = issue.severity)
    (hcode : ∀ issue, (change issue).code = issue.code)
    (h : ((validate nodes edges).issues.map change).Perm
      ((validate nodes' edges').issues.map change)) :
    SameVerdict (validate nodes edges) (validate nodes' edges') := by
  have hcount (p : Issue → Bool) (hp : ∀ issue, p (change issue) = p issue) :
      (validate nodes edges).issues.countP p =
        (validate nodes' edges').issues.countP p := by
    have hperm := h.countP_eq p
    rw [List.countP_map, List.countP_map] at hperm
    simpa only [Function.comp_def, hp] using hperm
  have herrors : (validate nodes edges).errors =
      (validate nodes' edges').errors := by
    refine hcount _ fun issue => ?_
    rw [Issue.isError, hseverity, Issue.isError]
  refine ⟨herrors, hcount _ fun issue => ?_, hcount _ fun issue => ?_, ?_⟩
  · rw [Issue.isWarning, hseverity, Issue.isWarning]
  · rw [hcode]
  · rw [plan_isSome_iff, plan_isSome_iff, herrors]

/-! ## Repeated connections

The issues of one edge and what it adds to the connections seen are separated
here, so that two edges in either order can be compared. -/

/-- An issue without the edge that a warning names. -/
def Issue.unblamed (issue : Issue) : Issue :=
  if issue.isWarning then { issue with edgeId := none } else issue

theorem severity_unblamed (issue : Issue) :
    issue.unblamed.severity = issue.severity := by
  rw [Issue.unblamed]
  split <;> rfl

theorem code_unblamed (issue : Issue) : issue.unblamed.code = issue.code := by
  rw [Issue.unblamed]
  split <;> rfl

/-- Errors are not changed by leaving out what warnings name. -/
theorem filter_isError_unblamed (issues : List Issue) :
    (issues.map Issue.unblamed).filter (·.isError) =
      issues.filter (·.isError) := by
  have herror (issue : Issue) : issue.unblamed.isError = issue.isError := by
    rw [Issue.isError, severity_unblamed, Issue.isError]
  rw [List.filter_map]
  simp only [Function.comp_def, herror]
  refine (List.map_congr_left fun issue hissue => ?_).trans (List.map_id _)
  have hsevere := (List.mem_filter.mp hissue).2
  rw [Issue.isError, beq_iff_eq] at hsevere
  simp [Issue.unblamed, Issue.isWarning, hsevere]

namespace Edge

/-- The issues of an edge behind others that made the connections `seen`. -/
def ownIssues (nodes : List Node) (seen : List String) (edge : Edge) :
    List Issue :=
  match edge.faults nodes with
  | [] => if edge.connection ∈ seen then [edge.duplicateIssue] else []
  | faults => faults.map edge.issue

/-- The connections seen after an edge. -/
def seenAfter (nodes : List Node) (seen : List String) (edge : Edge) :
    List String :=
  if edge.faults nodes = [] then edge.connection :: seen else seen

theorem mem_seenAfter {seen : List String} {c : String} :
    c ∈ edge.seenAfter nodes seen ↔
      c ∈ seen ∨ edge.faults nodes = [] ∧ c = edge.connection := by
  rw [seenAfter]
  split
  · next hfaults => simp [hfaults, or_comm]
  · next hfaults => simp [hfaults]

/-- Connections that were seen matter only if they are that of the edge, and
then only if the edge is right. -/
theorem ownIssues_congr {seen seen' : List String}
    (h : edge.faults nodes = [] → (edge.connection ∈ seen ↔
      edge.connection ∈ seen')) :
    edge.ownIssues nodes seen = edge.ownIssues nodes seen' := by
  rw [ownIssues, ownIssues]
  split
  · next hfaults => simp only [h hfaults]
  · rfl

/-- Edges that are right and make one connection are told apart only by the
name in the warning. -/
theorem unblamed_ownIssues_eq {a b : Edge} {seen seen' : List String}
    (ha : a.faults nodes = []) (hb : b.faults nodes = [])
    (hconn : a.connection = b.connection)
    (hseen : a.connection ∈ seen ↔ b.connection ∈ seen') :
    (a.ownIssues nodes seen).map Issue.unblamed =
      (b.ownIssues nodes seen').map Issue.unblamed := by
  simp only [ownIssues, ha, hb, hseen]
  split
  · show [a.duplicateIssue.unblamed] = [b.duplicateIssue.unblamed]
    simp [Issue.unblamed, duplicateIssue, Issue.isWarning, Issue.warning, hconn]
  · rfl

end Edge

theorem edgeIssuesFrom_congr {seen seen' : List String}
    (h : ∀ c, c ∈ seen ↔ c ∈ seen') :
    edgeIssuesFrom nodes seen edges = edgeIssuesFrom nodes seen' edges := by
  induction edges generalizing seen seen' with
  | nil => rfl
  | cons edge rest ih =>
      have hcons : ∀ c, c ∈ edge.connection :: seen ↔
          c ∈ edge.connection :: seen' := by
        intro c
        rw [List.mem_cons, List.mem_cons, h]
      simp only [edgeIssuesFrom, h, ih h, ih hcons]

theorem edgeIssuesFrom_cons (seen : List String) :
    edgeIssuesFrom nodes seen (edge :: edges) = edge.ownIssues nodes seen ++
      edgeIssuesFrom nodes (edge.seenAfter nodes seen) edges := by
  cases hfaults : edge.faults nodes with
  | nil =>
      simp only [edgeIssuesFrom, Edge.ownIssues, Edge.seenAfter, hfaults,
        if_true]
      split
      · next hseen =>
          have hsame : ∀ c, c ∈ edge.connection :: seen ↔ c ∈ seen := by
            intro c
            rw [List.mem_cons, or_iff_right_of_imp]
            exact fun hc => hc ▸ hseen
          rw [edgeIssuesFrom_congr hsame]
          rfl
      · rfl
  | cons fault faults =>
      simp only [edgeIssuesFrom, Edge.ownIssues, Edge.seenAfter, hfaults]
      rw [if_neg (List.cons_ne_nil _ _)]

/-- Two edges in a row may change places. -/
theorem unblamed_ownIssues_swap (a b : Edge) (seen : List String) :
    ((b.ownIssues nodes seen).map Issue.unblamed ++
        (a.ownIssues nodes (b.seenAfter nodes seen)).map Issue.unblamed).Perm
      ((a.ownIssues nodes seen).map Issue.unblamed ++
        (b.ownIssues nodes (a.seenAfter nodes seen)).map Issue.unblamed) := by
  by_cases hsame : a.faults nodes = [] ∧ b.faults nodes = [] ∧
      a.connection = b.connection
  · -- The first of the two adds a warning if the connection was seen before
    -- them, the second one adds it in any case.
    obtain ⟨ha, hb, hconn⟩ := hsame
    have hfirst : b.connection ∈ seen ↔ a.connection ∈ seen := by rw [hconn]
    have hsecond : a.connection ∈ b.seenAfter nodes seen ↔
        b.connection ∈ a.seenAfter nodes seen := by
      simp only [Edge.mem_seenAfter, ha, hb, hconn]
    rw [Edge.unblamed_ownIssues_eq hb ha hconn.symm hfirst,
      Edge.unblamed_ownIssues_eq ha hb hconn hsecond]
  · -- Neither of the two makes a difference to the other.
    have hother : ∀ x y : Edge, ¬ (x.faults nodes = [] ∧ y.faults nodes = [] ∧
        x.connection = y.connection) →
        x.ownIssues nodes (y.seenAfter nodes seen) =
          x.ownIssues nodes seen := by
      intro x y hxy
      refine Edge.ownIssues_congr fun hx => ?_
      rw [Edge.mem_seenAfter, or_iff_left]
      exact fun ⟨hy, hconn⟩ => hxy ⟨hx, hy, hconn⟩
    rw [hother a b hsame, hother b a fun ⟨hb, ha, hconn⟩ =>
      hsame ⟨ha, hb, hconn.symm⟩]
    exact List.perm_append_comm

theorem unblamed_edgeIssues_perm (nodes : List Node)
    (h : edges.Perm edges') :
    ((edgeIssues nodes edges).map Issue.unblamed).Perm
      ((edgeIssues nodes edges').map Issue.unblamed) := by
  suffices hfrom : ∀ seen,
      ((edgeIssuesFrom nodes seen edges).map Issue.unblamed).Perm
        ((edgeIssuesFrom nodes seen edges').map Issue.unblamed) from hfrom []
  induction h with
  | nil => exact fun _ => .refl _
  | cons edge _ ih =>
      intro seen
      rw [edgeIssuesFrom_cons, edgeIssuesFrom_cons, List.map_append,
        List.map_append]
      exact (ih _).append_left _
  | swap a b rest =>
      intro seen
      have hseen : ∀ c,
          c ∈ a.seenAfter nodes (b.seenAfter nodes seen) ↔
            c ∈ b.seenAfter nodes (a.seenAfter nodes seen) := by
        intro c
        simp only [Edge.mem_seenAfter]
        exact or_right_comm
      simp only [edgeIssuesFrom_cons, edgeIssuesFrom_congr hseen,
        List.map_append, ← List.append_assoc]
      exact (unblamed_ownIssues_swap a b seen).append_right _
  | trans _ _ ih ih' => exact fun seen => (ih seen).trans (ih' seen)

/-! ## Edges in another order -/

section Edges

variable (nodes) (h : edges.Perm edges')
include h

theorem connections_perm :
    (connections nodes edges).Perm (connections nodes edges') :=
  (h.filter _).map _

theorem inputIssues_eq_of_perm :
    inputIssues nodes edges = inputIssues nodes edges' :=
  inputIssues_congr (connections_perm nodes h).subset
    (connections_perm nodes h).symm.subset

theorem outputIssues_eq_of_perm :
    outputIssues nodes edges = outputIssues nodes edges' :=
  outputIssues_congr (connections_perm nodes h).subset
    (connections_perm nodes h).symm.subset

theorem alike_of_edges_perm :
    (wiring nodes edges).Alike (wiring nodes edges') :=
  alike_of_connections (connections_perm nodes h).subset
    (connections_perm nodes h).symm.subset

theorem wiringIssues_eq_of_perm :
    (wiring nodes edges).issues = (wiring nodes edges').issues := by
  have halike := alike_of_edges_perm nodes h
  have hs := wiring_sound nodes edges
  have hs' := wiring_sound nodes edges'
  rw [Wiring.issues, Wiring.startIssues, Wiring.cycleIssues, Wiring.reachIssues,
    halike.starts_eq rfl, halike.hasCycle_eq hs hs',
    halike.unordered_eq hs hs' rfl, halike.unreachable_eq hs hs' rfl]
  rfl

theorem unblamed_issues_perm :
    ((validate nodes edges).issues.map Issue.unblamed).Perm
      ((validate nodes edges').issues.map Issue.unblamed) := by
  rw [issues_validate, issues_validate, inputIssues_eq_of_perm nodes h,
    outputIssues_eq_of_perm nodes h, wiringIssues_eq_of_perm nodes h]
  simp only [List.map_append]
  have hedges := unblamed_edgeIssues_perm nodes h
  exact (((hedges.append_right _).append_right _).append_left _).append_right _

theorem errors_perm :
    ((validate nodes edges).issues.filter (·.isError)).Perm
      ((validate nodes edges').issues.filter (·.isError)) := by
  have hperm := (unblamed_issues_perm nodes h).filter (·.isError)
  rwa [filter_isError_unblamed, filter_isError_unblamed] at hperm

end Edges

/-! ## Nodes in another order -/

/-- An issue without its details. -/
def Issue.undetailed (issue : Issue) : Issue := { issue with details := none }

section Nodes

variable (edges) (h : nodes.Perm nodes')
  (hids : (nodes.map (·.id)).Nodup)
include h hids

theorem findNode?_eq_of_perm : findNode? nodes = findNode? nodes' := by
  funext id
  have hids' : (nodes'.map (·.id)).Nodup := (h.map _).nodup_iff.mp hids
  ext node
  rw [findNode?_of_nodup hids, findNode?_of_nodup hids', h.mem_iff]

theorem nodeIds_perm : (nodeIds nodes).Perm (nodeIds nodes') := by
  rw [nodeIds_of_nodup hids, nodeIds_of_nodup ((h.map _).nodup_iff.mp hids)]
  exact h.map _

theorem firstNodes_perm : (firstNodes nodes).Perm (firstNodes nodes') := by
  rw [firstNodes, findNode?_eq_of_perm h hids]
  exact (nodeIds_perm h hids).filterMap _

theorem connecting_eq_of_perm :
    connecting nodes edges = connecting nodes' edges :=
  connecting_eq_of_find (findNode?_eq_of_perm h hids) edges

theorem edgeIssues_eq_of_perm :
    edgeIssues nodes edges = edgeIssues nodes' edges :=
  edgeIssues_eq_of_find (findNode?_eq_of_perm h hids) edges

theorem inputIssues_perm :
    (inputIssues nodes edges).Perm (inputIssues nodes' edges) := by
  rw [inputIssues, connecting_eq_of_perm edges h hids]
  exact (firstNodes_perm h hids).flatMap_right _

theorem outputIssues_perm :
    (outputIssues nodes edges).Perm (outputIssues nodes' edges) := by
  rw [outputIssues, connecting_eq_of_perm edges h hids]
  exact (firstNodes_perm h hids).flatMap_right _

theorem links_eq_of_perm :
    (wiring nodes edges).links = (wiring nodes' edges).links := by
  rw [wiring, connecting_eq_of_perm edges h hids, wiring]

theorem alike_of_nodes_perm :
    (wiring nodes edges).Alike (wiring nodes' edges) where
  mem_vertices _ := (nodeIds_perm h hids).mem_iff
  feeds_iff u v := by
    rw [Wiring.Feeds, links_eq_of_perm edges h hids, Wiring.Feeds]

theorem undetailed_wiringIssues_perm :
    ((wiring nodes edges).issues.map Issue.undetailed).Perm
      ((wiring nodes' edges).issues.map Issue.undetailed) := by
  have halike := alike_of_nodes_perm edges h hids
  have hs := wiring_sound nodes edges
  have hs' := wiring_sound nodes' edges
  have hstart : (wiring nodes edges).startIssues =
      (wiring nodes' edges).startIssues := by
    rw [Wiring.startIssues, (halike.starts_perm hs hs').isEmpty_eq,
      Wiring.startIssues]
  have hcycle : (wiring nodes edges).cycleIssues.map Issue.undetailed =
      (wiring nodes' edges).cycleIssues.map Issue.undetailed := by
    rw [Wiring.cycleIssues, halike.hasCycle_eq hs hs', Wiring.cycleIssues]
    split
    · simp only [List.map_cons, List.map_nil, Issue.undetailed]
    · rfl
  rw [Wiring.issues, Wiring.issues, hstart]
  simp only [List.map_append, hcycle]
  exact (((halike.unreachable_perm hs hs').map _).map _).append_left _

theorem undetailed_issues_perm :
    ((validate nodes edges).issues.map Issue.undetailed).Perm
      ((validate nodes' edges).issues.map Issue.undetailed) := by
  have hnone := duplicateIssues_eq_nil.mpr hids
  have hnone' := duplicateIssues_eq_nil.mpr ((h.map _).nodup_iff.mp hids)
  rw [issues_validate, issues_validate, hnone, hnone',
    edgeIssues_eq_of_perm edges h hids]
  simp only [List.map_append, List.nil_append]
  have hfields := (h.flatMap_right Node.fieldIssues).map Issue.undetailed
  have hinputs := (inputIssues_perm edges h hids).map
    Issue.undetailed
  have houtputs := (outputIssues_perm edges h hids).map
    Issue.undetailed
  exact (hfields.append ((hinputs.append_left _).append houtputs)).append
    (undetailed_wiringIssues_perm edges h hids)

end Nodes

/-! ## Plans -/

variable {plan plan' : Plan}

theorem plan_of_edges_perm (h : edges.Perm edges')
    (hplan : (validate nodes edges).plan = some plan)
    (hplan' : (validate nodes edges').plan = some plan') :
    plan.startNodes = plan'.startNodes ∧
      plan.unreachableNodes = plan'.unreachableNodes ∧
      ∀ id, Option.Rel List.Perm (plan.adjacency.find? id)
        (plan'.adjacency.find? id) := by
  have halike := alike_of_edges_perm nodes h
  have hs := wiring_sound nodes edges
  have hs' := wiring_sound nodes edges'
  have hread := readsOff_of_plan hplan
  have hread' := readsOff_of_plan hplan'
  rw [hread.startNodes_eq, hread'.startNodes_eq, hread.unreachableNodes_eq,
    hread'.unreachableNodes_eq]
  refine ⟨halike.starts_eq rfl, halike.unreachable_eq hs hs' rfl, fun id => ?_⟩
  rw [hread.find?_adjacency, hread'.find?_adjacency]
  by_cases hid : id ∈ (wiring nodes edges).vertices
  · rw [if_pos hid, if_pos ((halike.mem_vertices id).mp hid)]
    exact .some (halike.successors_perm hs hs' id)
  · rw [if_neg hid, if_neg (mt (halike.mem_vertices id).mpr hid)]
    exact .none

theorem plan_of_nodes_perm (h : nodes.Perm nodes')
    (hids : (nodes.map (·.id)).Nodup)
    (hplan : (validate nodes edges).plan = some plan)
    (hplan' : (validate nodes' edges).plan = some plan') :
    plan.adjacency = plan'.adjacency ∧
      plan.startNodes.Perm plan'.startNodes ∧
      plan.unreachableNodes.Perm plan'.unreachableNodes := by
  have halike := alike_of_nodes_perm edges h hids
  have hs := wiring_sound nodes edges
  have hs' := wiring_sound nodes' edges
  have hread := readsOff_of_plan hplan
  have hread' := readsOff_of_plan hplan'
  rw [hread.startNodes_eq, hread'.startNodes_eq, hread.unreachableNodes_eq,
    hread'.unreachableNodes_eq]
  refine ⟨Table.ext_find? fun id => ?_, halike.starts_perm hs hs',
    halike.unreachable_perm hs hs'⟩
  rw [hread.find?_adjacency, hread'.find?_adjacency, Wiring.successors,
    links_eq_of_perm edges h hids, Wiring.successors]
  simp only [halike.mem_vertices]

/-- Validation comes to one verdict on a graph, however its edges are listed,
and, where ids are distinct, however its nodes are. With the edges in another
order all errors are the same and planning finds the same starts, unreachable
nodes and links. With the nodes in another order every node feeds the same nodes
in the same order, and starts and unreachable nodes are listed as the nodes
are. -/
theorem verdict_independent_of_listing (nodes : List Node)
    (edges : List Edge) :
    (∀ edges', edges.Perm edges' →
      SameVerdict (validate nodes edges) (validate nodes edges') ∧
      ((validate nodes edges).issues.filter (·.isError)).Perm
        ((validate nodes edges').issues.filter (·.isError)) ∧
      (wiring nodes edges).starts = (wiring nodes edges').starts ∧
      (wiring nodes edges).unreachable = (wiring nodes edges').unreachable ∧
      (∀ id, ((wiring nodes edges).successors id).Perm
        ((wiring nodes edges').successors id)) ∧
      ∀ plan plan', (validate nodes edges).plan = some plan →
        (validate nodes edges').plan = some plan' →
        plan.startNodes = plan'.startNodes ∧
          plan.unreachableNodes = plan'.unreachableNodes ∧
          ∀ id, Option.Rel List.Perm (plan.adjacency.find? id)
            (plan'.adjacency.find? id)) ∧
    ∀ nodes', nodes.Perm nodes' → (nodes.map (·.id)).Nodup →
      SameVerdict (validate nodes edges) (validate nodes' edges) ∧
      (wiring nodes edges).starts.Perm (wiring nodes' edges).starts ∧
      (wiring nodes edges).unreachable.Perm (wiring nodes' edges).unreachable ∧
      ∀ plan plan', (validate nodes edges).plan = some plan →
        (validate nodes' edges).plan = some plan' →
        plan.adjacency = plan'.adjacency ∧
          plan.startNodes.Perm plan'.startNodes ∧
          plan.unreachableNodes.Perm plan'.unreachableNodes := by
  have hs := wiring_sound nodes edges
  refine ⟨fun edges' h => ?_, fun nodes' h hids => ?_⟩
  · have halike := alike_of_edges_perm nodes h
    have hs' := wiring_sound nodes edges'
    refine ⟨.of_perm _ severity_unblamed code_unblamed
        (unblamed_issues_perm nodes h), errors_perm nodes h,
      halike.starts_eq rfl, halike.unreachable_eq hs hs' rfl,
      halike.successors_perm hs hs', ?_⟩
    exact fun _ _ hplan hplan' => plan_of_edges_perm h hplan hplan'
  · have halike := alike_of_nodes_perm edges h hids
    have hs' := wiring_sound nodes' edges
    refine ⟨.of_perm Issue.undetailed (fun _ => rfl) (fun _ => rfl)
        (undetailed_issues_perm edges h hids), halike.starts_perm hs hs',
      halike.unreachable_perm hs hs', ?_⟩
    exact fun _ _ hplan hplan' => plan_of_nodes_perm h hids hplan hplan'

/-- The diamond with its edges, and with its nodes, listed backwards. -/
theorem verdict_independent_of_listing_diamond :
    (∃ plan plan', diamond.validate.plan = some plan ∧
      (validate diamond.nodes diamond.edges.reverse).plan = some plan' ∧
      plan.nodesInOrder ≠ plan'.nodesInOrder ∧
      SameVerdict diamond.validate
        (validate diamond.nodes diamond.edges.reverse) ∧
      plan.startNodes = plan'.startNodes ∧
      plan.unreachableNodes = plan'.unreachableNodes) ∧
    ∃ plan plan', diamond.validate.plan = some plan ∧
      (validate diamond.nodes.reverse diamond.edges).plan = some plan' ∧
      SameVerdict diamond.validate
        (validate diamond.nodes.reverse diamond.edges) ∧
      plan.adjacency = plan'.adjacency := by
  have horder : diamond.validate.plan.map (·.nodesInOrder) =
      some ["start", "right", "left", "join"] := by decide
  have horder' : (validate diamond.nodes diamond.edges.reverse).plan.map
      (·.nodesInOrder) = some ["start", "left", "right", "join"] := by decide
  obtain ⟨plan, hplan, hnodes⟩ := Option.map_eq_some_iff.mp horder
  obtain ⟨hedges, hlisted⟩ :=
    verdict_independent_of_listing diamond.nodes diamond.edges
  refine ⟨?_, ?_⟩
  · obtain ⟨plan', hplan', hnodes'⟩ := Option.map_eq_some_iff.mp horder'
    obtain ⟨hverdict, _, _, _, _, hplans⟩ :=
      hedges diamond.edges.reverse (List.reverse_perm _).symm
    obtain ⟨hstarts, hunreachable, _⟩ := hplans plan plan' hplan hplan'
    refine ⟨plan, plan', hplan, hplan', ?_, hverdict, hstarts, hunreachable⟩
    rw [hnodes, hnodes']
    decide
  · obtain ⟨hverdict, _, _, hplans⟩ :=
      hlisted diamond.nodes.reverse (List.reverse_perm _).symm (by decide)
    have hsome := hverdict.plan_iff.mp (Option.isSome_of_eq_some hplan)
    obtain ⟨plan', hplan'⟩ := Option.isSome_iff_exists.mp hsome
    exact ⟨plan, plan', hplan, hplan', hverdict,
      (hplans plan plan' hplan hplan').1⟩

end Flowgraph
