import Flowgraph.Proofs.PortReports
import Flowgraph.Proofs.Requirements

/-!
# How a report keeps its books

Issues are raised in a dozen places, each of which says how bad the issue is and
where it belongs; the numbers of a report are then counted from the list. What
the places have in common is written down in `Issue.Filed`: the code decides
whether an issue is an error or a warning and whether it is about an edge, and
whatever it names is in the graph. An issue can only name a node that is not
there if an edge leads from that node to itself.

The checks are taken one by one, and what holds of each of their issues holds of
all of them. The numbers follow: none is an error and a warning at once, and the
issues of something missing are those of two checks, of which one goes through
all nodes and the other through the first nodes of their ids.
-/

namespace Flowgraph

variable {nodes : List Node} {edges : List Edge} {node : Node} {edge : Edge}
  {issue : Issue}

/-! ## What an issue says -/

namespace IssueCode

/-- The codes of warnings. -/
def warnings : List IssueCode := [duplicateEdge, unreachableNode]

/-- The codes of issues about one edge. -/
def ofEdges : List IssueCode :=
  [selfLoop, danglingEdge, unknownPort, typeMismatch, duplicateEdge]

end IssueCode

/-- An issue of a graph: its code says what it is, and what it names is
there. -/
structure Issue.Filed (nodes : List Node) (edges : List Edge) (issue : Issue) :
    Prop where
  severity_eq : issue.severity =
    if issue.code ∈ IssueCode.warnings then .warning else .error
  code_ne : issue.code ≠ .nodeFailed
  edgeId_isSome : issue.edgeId.isSome ↔ issue.code ∈ IssueCode.ofEdges
  edgeId_mem : ∀ id, issue.edgeId = some id → ∃ edge ∈ edges, edge.id = id
  nodeId_mem : ∀ id, issue.nodeId = some id →
    (∃ node ∈ nodes, node.id = id) ∨
      issue.code = .selfLoop ∧ ∃ edge ∈ edges, issue.edgeId = some edge.id ∧
        edge.source.nodeId = id ∧ edge.target.nodeId = id

namespace Issue.Filed

section Apart

variable (code : IssueCode) (hcode : issue.code = code)
  (hown : code ∉ .nodeFailed :: IssueCode.ofEdges)
  (hseverity : issue.severity =
    if code ∈ IssueCode.warnings then .warning else .error)
  (hedge : issue.edgeId = none)
include hcode hown hseverity hedge

/-- An issue that is not about an edge. -/
theorem of_apart (hnode : ∀ id, issue.nodeId = some id →
      ∃ node ∈ nodes, node.id = id) : issue.Filed nodes edges where
  severity_eq := hcode ▸ hseverity
  code_ne := by
    rw [hcode]
    exact fun h => hown (h ▸ List.mem_cons_self)
  edgeId_isSome := by
    rw [hedge, hcode]
    exact iff_of_false nofun fun h => hown (List.mem_cons_of_mem _ h)
  edgeId_mem := by
    rw [hedge]
    exact nofun
  nodeId_mem id hid := .inl (hnode id hid)

theorem of_node (hmem : node ∈ nodes) (hnode : issue.nodeId = some node.id) :
    issue.Filed nodes edges :=
  of_apart code hcode hown hseverity hedge fun _ hid =>
    ⟨node, hmem, Option.some.inj (hnode.symm.trans hid)⟩

theorem of_graph (hnode : issue.nodeId = none) : issue.Filed nodes edges :=
  of_apart code hcode hown hseverity hedge fun id hid =>
    absurd (hnode.symm.trans hid).symm (Option.some_ne_none id)

end Apart

/-- An issue that is about an edge. -/
theorem of_edge (hseverity : issue.severity =
      if issue.code ∈ IssueCode.warnings then .warning else .error)
    (hcode : issue.code ∈ IssueCode.ofEdges)
    (hmem : edge ∈ edges) (hedge : issue.edgeId = some edge.id)
    (hnode : ∀ id, issue.nodeId = some id →
      (∃ node ∈ nodes, node.id = id) ∨ issue.code = .selfLoop ∧
        edge.source.nodeId = id ∧ edge.target.nodeId = id) :
    issue.Filed nodes edges where
  severity_eq := hseverity
  code_ne := by
    intro h
    rw [h] at hcode
    exact absurd hcode (by decide)
  edgeId_isSome := by
    rw [hedge]
    exact iff_of_true rfl hcode
  edgeId_mem id hid := by
    rw [hedge] at hid
    exact ⟨edge, hmem, Option.some.inj hid⟩
  nodeId_mem id hid := by
    refine (hnode id hid).imp_right fun ⟨hloop, hends⟩ => ?_
    exact ⟨hloop, edge, hmem, hedge, hends⟩

theorem isError_iff (h : issue.Filed nodes edges) :
    issue.isError = true ↔ issue.code ∉ IssueCode.warnings := by
  rw [Issue.isError, h.severity_eq]
  split
  · next hcode => exact iff_of_false (by decide) (not_not_intro hcode)
  · next hcode => exact iff_of_true (by decide) hcode

theorem isWarning_eq (h : issue.Filed nodes edges) :
    issue.isWarning = !issue.isError := by
  rw [Issue.isWarning, Issue.isError, h.severity_eq]
  split <;> rfl

end Issue.Filed

/-! ## Check by check -/

theorem repeatedNodesFrom_sublist (seen : List String) (nodes : List Node) :
    (repeatedNodesFrom seen nodes).Sublist nodes := by
  induction nodes generalizing seen with
  | nil => exact .slnil
  | cons node rest ih =>
      rw [repeatedNodesFrom]
      split
      · exact (ih seen).cons_cons node
      · exact (ih _).cons node

theorem filed_duplicateIssues (h : issue ∈ duplicateIssues nodes) :
    issue.Filed nodes edges := by
  obtain ⟨node, hnode, rfl⟩ := List.mem_map.mp h
  have hmem := (repeatedNodesFrom_sublist [] nodes).subset hnode
  exact .of_node .duplicateNodeId rfl (by decide) rfl rfl hmem rfl

theorem filed_fieldIssues (hmem : node ∈ nodes) (h : issue ∈ node.fieldIssues) :
    issue.Filed nodes edges := by
  obtain ⟨r, rfl⟩ | ⟨t, rfl⟩ := exists_of_mem_fieldIssues h
  · exact .of_node .missingRequiredField rfl (by decide) rfl rfl hmem rfl
  · exact .of_node .invalidField rfl (by decide) rfl rfl hmem rfl

theorem filed_inputIssues (h : issue ∈ inputIssues nodes edges) :
    issue.Filed nodes edges := by
  obtain ⟨node, hnode, port, _, rfl⟩ := exists_of_mem_inputIssues h
  have hmem := findNode?_mem (mem_firstNodes.mp hnode)
  exact .of_node .missingRequiredInput rfl (by decide) rfl rfl hmem rfl

theorem filed_outputIssues (h : issue ∈ outputIssues nodes edges) :
    issue.Filed nodes edges := by
  obtain ⟨node, hnode, port, _, limit, count, rfl⟩ :=
    exists_of_mem_outputIssues h
  have hmem := findNode?_mem (mem_firstNodes.mp hnode)
  exact .of_node .tooManyConnections rfl (by decide) rfl rfl hmem rfl

theorem filed_wiringIssues (h : issue ∈ (wiring nodes edges).issues) :
    issue.Filed nodes edges := by
  rw [Wiring.issues, List.mem_append, List.mem_append, or_assoc] at h
  rcases h with h | h | h
  · rw [Wiring.startIssues] at h
    split at h
    · obtain rfl := List.mem_singleton.mp h
      exact .of_graph .noStartNode rfl (by decide) rfl rfl rfl
    · cases h
  · rw [Wiring.cycleIssues] at h
    split at h
    · obtain rfl := List.mem_singleton.mp h
      exact .of_graph .cycle rfl (by decide) rfl rfl rfl
    · cases h
  · obtain ⟨v, hv, rfl⟩ := List.mem_map.mp h
    have hvertex := ((wiring_sound nodes edges).mem_unreachable.mp hv).1
    obtain ⟨node, hmem, rfl⟩ := mem_nodeIds.mp hvertex
    exact .of_node .unreachableNode rfl (by decide) rfl rfl hmem rfl

/-- The node that an error of an edge blames is there, unless the edge leads
back to it. -/
theorem node_of_mem_ownErrors (h : issue ∈ edge.ownErrors nodes) {id : String}
    (hid : issue.nodeId = some id) :
    (∃ node ∈ nodes, node.id = id) ∨ issue.code = .selfLoop ∧
      edge.source.nodeId = id ∧ edge.target.nodeId = id := by
  obtain ⟨found, hverdict⟩ := EdgeVerdict.exists_verdict nodes edge
  have hfound : issue.finding ∈ found :=
    hverdict.findings_eq ▸ List.mem_map_of_mem h
  cases hverdict with
  | selfLoop loop =>
      have hfinding := List.mem_singleton.mp hfound
      have hcode : issue.code = .selfLoop := congrArg Finding.code hfinding
      have hsource : issue.nodeId = some edge.source.nodeId :=
        congrArg Finding.nodeId hfinding
      obtain rfl := Option.some.inj (hsource.symm.trans hid)
      exact .inr ⟨hcode, rfl, loop.symm⟩
  | dangling apart absent =>
      have hnone : issue.nodeId = none :=
        congrArg Finding.nodeId (List.mem_singleton.mp hfound)
      rw [hnone] at hid
      cases hid
  | @unknownPort source target apart leaves enters unresolved =>
      obtain ⟨side, hside, hfinding⟩ := List.mem_map.mp hfound
      have hnode : some side.node.id = issue.nodeId :=
        congrArg Finding.nodeId hfinding
      have hid' := Option.some.inj (hnode.trans hid)
      have hends := List.mem_of_mem_filter hside
      simp only [List.mem_cons, List.not_mem_nil, or_false] at hends
      rcases hends with rfl | rfl
      · exact .inl ⟨source, findNode?_mem leaves, hid'⟩
      · exact .inl ⟨target, findNode?_mem enters, hid'⟩
  | typeMismatch =>
      have hnone : issue.nodeId = none :=
        congrArg Finding.nodeId (List.mem_singleton.mp hfound)
      rw [hnone] at hid
      cases hid
  | right => cases hfound

theorem filed_edgeIssues (h : issue ∈ edgeIssues nodes edges) :
    issue.Filed nodes edges := by
  have hcode : issue.code ∈ IssueCode.ofEdges := code_of_mem_edgeIssues h
  -- Beside its errors an edge only has the warning that it repeats another one.
  cases herror : issue.isError with
  | true =>
      have hown : issue ∈ edgeErrors nodes edges :=
        List.mem_filter.mpr ⟨h, herror⟩
      rw [edgeErrors_eq, List.mem_flatMap] at hown
      obtain ⟨edge, hmem, hown⟩ := hown
      obtain ⟨fault, _, rfl⟩ := List.mem_map.mp hown
      refine .of_edge ?_ hcode hmem (marks_of_mem_ownErrors hown).2.2
        fun id hid => node_of_mem_ownErrors hown hid
      cases fault <;> rfl
  | false =>
      obtain ⟨edge, hmem, ⟨fault, rfl⟩ | rfl⟩ := exists_of_mem_edgeIssuesFrom h
      · rw [isError_issue] at herror
        cases herror
      · exact .of_edge rfl hcode hmem rfl nofun

/-- Every issue of a report is filed. -/
theorem filed_issues (h : issue ∈ (validate nodes edges).issues) :
    issue.Filed nodes edges := by
  rcases mem_issues.mp h with h | ⟨node, hnode, h⟩ | h | h | h | h
  · exact filed_duplicateIssues h
  · exact filed_fieldIssues hnode h
  · exact filed_edgeIssues h
  · exact filed_inputIssues h
  · exact filed_outputIssues h
  · exact filed_wiringIssues h

/-! ## What is missing -/

/-- The required inputs that no edge enters, at the first nodes of the ids. -/
def unfedPorts (nodes : List Node) (edges : List Edge) : Set (Node × Port) :=
  {pair | IsFirst nodes pair.1 ∧ pair.2 ∈ pair.1.kind.ports .input ∧
    Unfed nodes edges pair.1 pair.2}

theorem length_inputIssues (nodes : List Node) (edges : List Edge) :
    ((inputIssues nodes edges).length : ℕ∞) =
      (unfedPorts nodes edges).encard := by
  obtain ⟨pairs, hmem, horder, hissues⟩ := reportsPorts_inputIssues nodes edges
  have hset : unfedPorts nodes edges = {pair | pair ∈ pairs} := by
    ext ⟨node, port⟩
    exact (hmem node port).symm
  have hnodup : pairs.Nodup := by
    refine horder.imp fun hlt heq => ?_
    rw [heq, Prod.lex_def] at hlt
    omega
  rw [hset, encard_of_nodup hnodup, hissues.length_eq]

/-- The missing texts of a node are its required ones that are blank. -/
theorem countP_missing_fieldIssues (node : Node) :
    node.fieldIssues.countP (·.code.isMissingRequired) =
      node.config.toJson.requiredPaths.countP node.config.toJson.lacks := by
  have hunworded : (node.fieldIssues.map Issue.unworded).countP
      (·.code.isMissingRequired) =
        node.fieldIssues.countP (·.code.isMissingRequired) := by
    rw [List.countP_map]
    rfl
  have hlacking : ((node.config.toJson.requiredPaths.filter
      node.config.toJson.lacks).map node.lackingIssue).countP
        (·.code.isMissingRequired) =
      node.config.toJson.requiredPaths.countP node.config.toJson.lacks := by
    rw [List.countP_eq_length.mpr, List.length_map,
      ← List.countP_eq_length_filter]
    intro issue hissue
    obtain ⟨path, _, rfl⟩ := List.mem_map.mp hissue
    rfl
  have hrange : (if node.config.OutOfRange then [node.rangeIssue]
      else []).countP (·.code.isMissingRequired) = 0 := by
    split <;> rfl
  rw [← hunworded, node.unworded_fieldIssues, List.countP_append, hlacking,
    hrange, Nat.add_zero]

theorem countP_missing_eq_zero {issues : List Issue} {codes : List IssueCode}
    (hcodes : ∀ code ∈ codes, code.isMissingRequired = false)
    (h : ∀ issue ∈ issues, issue.code ∈ codes) :
    issues.countP (·.code.isMissingRequired) = 0 := by
  refine List.countP_eq_zero.mpr fun issue hissue => ?_
  rw [hcodes _ (h issue hissue)]
  exact Bool.false_ne_true

/-- Texts are asked for at all nodes, inputs at the first nodes of the ids. -/
theorem missingRequiredCount_eq (nodes : List Node) (edges : List Edge) :
    (validate nodes edges).missingRequiredCount =
      (nodes.map fun node => node.config.toJson.requiredPaths.countP
        node.config.toJson.lacks).sum +
      (inputIssues nodes edges).length := by
  have hduplicates : (duplicateIssues nodes).countP
      (·.code.isMissingRequired) = 0 :=
    countP_missing_eq_zero (by decide) fun _ h =>
      List.mem_singleton.mpr (code_of_mem_duplicateIssues h)
  have hedges : (edgeIssues nodes edges).countP
      (·.code.isMissingRequired) = 0 :=
    countP_missing_eq_zero (by decide) fun _ => code_of_mem_edgeIssues
  have hinputs : (inputIssues nodes edges).countP
      (·.code.isMissingRequired) = (inputIssues nodes edges).length := by
    refine List.countP_eq_length.mpr fun issue hissue => ?_
    rw [code_of_mem_inputIssues hissue]
    rfl
  have houtputs : (outputIssues nodes edges).countP
      (·.code.isMissingRequired) = 0 :=
    countP_missing_eq_zero (by decide) fun _ h =>
      List.mem_singleton.mpr (code_of_mem_outputIssues h)
  have hwiring : (wiring nodes edges).issues.countP
      (·.code.isMissingRequired) = 0 :=
    countP_missing_eq_zero (by decide) fun _ => code_of_mem_wiringIssues
  have hcount : (validate nodes edges).missingRequiredCount =
      (validate nodes edges).issues.countP (·.code.isMissingRequired) := rfl
  rw [hcount, issues_validate]
  simp only [List.countP_append, List.countP_flatMap, Function.comp_def,
    countP_missing_fieldIssues, hduplicates, hedges, hinputs, houtputs, hwiring]
  omega

/-- The books of a report are in order. Every issue has the severity that goes
with its code, and names nothing that is not in the graph, unless it is about an
edge from a missing node to itself. So every issue is an error or a warning and
is counted once. What is counted as missing are the required texts that are
blank, of all nodes, and the required inputs that no edge enters, at the first
node of each id; they are among the errors. -/
theorem report_counts_add_up (nodes : List Node) (edges : List Edge) :
    (∀ issue ∈ (validate nodes edges).issues, issue.Filed nodes edges) ∧
    (validate nodes edges).errors + (validate nodes edges).warnings =
      (validate nodes edges).issues.length ∧
    ((validate nodes edges).missingRequiredCount : ℕ∞) =
      (nodes.map fun node => node.config.toJson.requiredPaths.countP
        node.config.toJson.lacks).sum + (unfedPorts nodes edges).encard ∧
    (validate nodes edges).missingRequiredCount ≤
      (validate nodes edges).errors := by
  refine ⟨fun _ => filed_issues, ?_, ?_, ?_⟩
  · rw [List.length_eq_countP_add_countP (·.isError)]
    refine congrArg (_ + ·) (List.countP_congr fun issue hissue => ?_)
    rw [(filed_issues hissue).isWarning_eq]
    simp
  · rw [missingRequiredCount_eq, Nat.cast_add, length_inputIssues]
  · refine List.countP_mono_left fun issue hissue hmissing => ?_
    refine (filed_issues hissue).isError_iff.mpr fun hcode => ?_
    have hnone : ∀ code ∈ IssueCode.warnings,
        code.isMissingRequired = false := by decide
    rw [hnone _ hcode] at hmissing
    cases hmissing

/-- A graph in which two nodes share an id and lack three texts between them, an
output is not fed, an edge is repeated, and another one leads from a node that
is not there to itself. -/
def Graph.strewn : Graph where
  nodes := [
    .new "start" .trigger, .new "ask" (.llm {}), .new "ask" (.agent {}),
    .new "end" .output]
  edges := [
    ⟨"e1", { nodeId := "start" }, { nodeId := "ask" }⟩,
    ⟨"e2", { nodeId := "ghost" }, { nodeId := "ghost" }⟩,
    ⟨"e3", { nodeId := "start" }, { nodeId := "ask", portId := some "in" }⟩,
    ⟨"e4", { nodeId := "ask" }, { nodeId := "nowhere" }⟩]

theorem report_counts_add_up_strewn :
    let report := Graph.strewn.validate
    (report.errors, report.warnings, report.missingRequiredCount) =
        (7, 1, 4) ∧
      report.issues.length = 8 ∧
      (unfedPorts Graph.strewn.nodes Graph.strewn.edges).encard = 1 ∧
      ∃ issue ∈ report.issues, issue.nodeId = some "ghost" ∧
        issue.code = .selfLoop ∧ issue.Filed Graph.strewn.nodes
          Graph.strewn.edges := by
  intro report
  obtain ⟨hfiled, hlength, hmissing, _⟩ :=
    report_counts_add_up Graph.strewn.nodes Graph.strewn.edges
  have herrors : report.errors = 7 := by decide
  have hwarnings : report.warnings = 1 := by decide
  have hcount : report.missingRequiredCount = 4 := by decide
  have htexts : (Graph.strewn.nodes.map fun node =>
      node.config.toJson.requiredPaths.countP
        node.config.toJson.lacks).sum = 3 := by decide
  obtain ⟨issue, hissue, hghost, hcode⟩ : ∃ issue ∈ report.issues,
      issue.nodeId = some "ghost" ∧ issue.code = .selfLoop := by decide
  refine ⟨by rw [herrors, hwarnings, hcount], ?_, ?_,
    issue, hissue, hghost, hcode, hfiled issue hissue⟩
  · show (validate _ _).issues.length = 8
    rw [← hlength]
    exact congrArg₂ (· + ·) herrors hwarnings
  · have hsum : (3 : ℕ∞) +
        (unfedPorts Graph.strewn.nodes Graph.strewn.edges).encard = 3 + 1 := by
      rw [htexts] at hmissing
      exact hmissing.symm.trans (congrArg Nat.cast hcount)
    exact ENat.add_right_injective_of_ne_top (ENat.natCast_ne_top 3) hsum

end Flowgraph
