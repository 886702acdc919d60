import Flowgraph.Report
import Flowgraph.Proofs.Ids

/-!
# What each check finds

Every check is read back as a condition on nodes and edges: when it has nothing
to say. Apart from repeated connections and unreachable nodes all issues are
errors, so the errors of a report are counted by adding up the checks, and a
report is free of them when every check is silent.
-/

namespace Flowgraph

variable {nodes : List Node} {edges : List Edge} {node : Node} {edge : Edge}
  {issue : Issue}

/-! ## Where issues come from -/

theorem issues_validate (nodes : List Node) (edges : List Edge) :
    (validate nodes edges).issues =
      duplicateIssues nodes ++ nodes.flatMap Node.fieldIssues ++
        (edgeIssues nodes edges ++ inputIssues nodes edges ++
          outputIssues nodes edges) ++ (wiring nodes edges).issues := rfl

/-- An issue of a report is one of some check. -/
theorem mem_issues : issue ∈ (validate nodes edges).issues ↔
    issue ∈ duplicateIssues nodes ∨ (∃ node ∈ nodes, issue ∈ node.fieldIssues) ∨
      issue ∈ edgeIssues nodes edges ∨ issue ∈ inputIssues nodes edges ∨
      issue ∈ outputIssues nodes edges ∨
      issue ∈ (wiring nodes edges).issues := by
  simp only [issues_validate, List.mem_append, List.mem_flatMap, or_assoc]

/-- An issue without its words: what it is about and what it counts. -/
def Issue.unworded (issue : Issue) : Issue :=
  { issue with message := "", fixHint := none }

theorem exists_of_mem_fieldIssues (h : issue ∈ node.fieldIssues) :
    (∃ r, issue = node.missingField r) ∨
      ∃ t, issue = node.badTemperature t := by
  rcases List.mem_append.mp h with h | h
  · obtain ⟨r, _, rfl⟩ := List.mem_map.mp h
    exact .inl ⟨r, rfl⟩
  · obtain ⟨t, _, rfl⟩ := List.mem_map.mp h
    exact .inr ⟨t, rfl⟩

theorem exists_of_mem_edgeIssuesFrom {seen : List String}
    (h : issue ∈ edgeIssuesFrom nodes seen edges) :
    ∃ edge ∈ edges, (∃ fault, issue = edge.issue fault) ∨
      issue = edge.duplicateIssue := by
  induction edges generalizing seen with
  | nil => cases h
  | cons edge rest ih =>
      rw [edgeIssuesFrom] at h
      -- What is not the edge's own issue is found among those of the rest.
      have hrest : ∀ {seen}, issue ∈ edgeIssuesFrom nodes seen rest →
          ∃ other ∈ edge :: rest, (∃ fault, issue = other.issue fault) ∨
            issue = other.duplicateIssue := by
        intro seen h
        obtain ⟨other, hother, hissue⟩ := ih h
        exact ⟨other, List.mem_cons_of_mem _ hother, hissue⟩
      split at h
      · split at h
        · rcases List.mem_cons.mp h with rfl | h
          · exact ⟨edge, List.mem_cons_self, .inr rfl⟩
          · exact hrest h
        · exact hrest h
      · rcases List.mem_append.mp h with h | h
        · obtain ⟨fault, _, rfl⟩ := List.mem_map.mp h
          exact ⟨edge, List.mem_cons_self, .inl ⟨fault, rfl⟩⟩
        · exact hrest h

theorem exists_of_mem_inputIssues (h : issue ∈ inputIssues nodes edges) :
    ∃ node ∈ firstNodes nodes, ∃ port ∈ node.kind.inputs,
      issue = node.missingInput port := by
  obtain ⟨node, hnode, h⟩ := List.mem_flatMap.mp h
  obtain ⟨port, hport, rfl⟩ := List.mem_map.mp h
  exact ⟨node, hnode, port, List.mem_of_mem_filter hport, rfl⟩

theorem exists_of_mem_outputIssues (h : issue ∈ outputIssues nodes edges) :
    ∃ node ∈ firstNodes nodes, ∃ port ∈ node.kind.outputs, ∃ limit count,
      issue = node.tooManyConnections port limit count := by
  obtain ⟨node, hnode, h⟩ := List.mem_flatMap.mp h
  obtain ⟨port, hport, h⟩ := List.mem_filterMap.mp h
  cases hmax : port.maxConnections with
  | none => simp [hmax] at h
  | some limit =>
      simp only [hmax, Option.ite_none_right_eq_some, Option.some_inj] at h
      obtain ⟨_, rfl⟩ := h
      exact ⟨node, hnode, port, hport, limit, _, rfl⟩

/-- The issues of single edges are the same where ids stand for the same
nodes. -/
theorem edgeIssues_eq_of_find {nodes' : List Node}
    (h : findNode? nodes = findNode? nodes') (edges : List Edge) :
    edgeIssues nodes edges = edgeIssues nodes' edges := by
  have hfaults (edge : Edge) : edge.faults nodes = edge.faults nodes' := by
    simp only [Edge.faults, h]
  suffices hfrom : ∀ seen, edgeIssuesFrom nodes seen edges =
      edgeIssuesFrom nodes' seen edges from hfrom []
  induction edges with
  | nil => exact fun _ => rfl
  | cons edge rest ih =>
      intro seen
      simp only [edgeIssuesFrom, hfaults, ih]

/-! ## Which issues are errors -/

@[simp] theorem isError_issue (edge : Edge) (fault : EdgeFault) :
    (edge.issue fault).isError = true := by
  cases fault <;> rfl

@[simp] theorem isError_duplicateIssue (edge : Edge) :
    edge.duplicateIssue.isError = false := rfl

theorem isError_of_mem_duplicateIssues (h : issue ∈ duplicateIssues nodes) :
    issue.isError = true := by
  obtain ⟨node, _, rfl⟩ := List.mem_map.mp h
  rfl

theorem isError_of_mem_fieldIssues (h : issue ∈ node.fieldIssues) :
    issue.isError = true := by
  obtain ⟨_, rfl⟩ | ⟨_, rfl⟩ := exists_of_mem_fieldIssues h
  · rfl
  · rfl

theorem isError_of_mem_inputIssues (h : issue ∈ inputIssues nodes edges) :
    issue.isError = true := by
  obtain ⟨_, _, _, _, rfl⟩ := exists_of_mem_inputIssues h
  rfl

theorem isError_of_mem_outputIssues (h : issue ∈ outputIssues nodes edges) :
    issue.isError = true := by
  obtain ⟨_, _, _, _, _, _, rfl⟩ := exists_of_mem_outputIssues h
  rfl

section Wiring

variable {w : Wiring String}

theorem isError_of_mem_startIssues (h : issue ∈ w.startIssues) :
    issue.isError = true := by
  rw [Wiring.startIssues] at h
  split at h
  · obtain rfl := List.mem_singleton.mp h
    rfl
  · cases h

theorem isError_of_mem_cycleIssues (h : issue ∈ w.cycleIssues) :
    issue.isError = true := by
  rw [Wiring.cycleIssues] at h
  split at h
  · obtain rfl := List.mem_singleton.mp h
    rfl
  · cases h

theorem isError_of_mem_reachIssues (h : issue ∈ w.reachIssues) :
    issue.isError = false := by
  obtain ⟨_, _, rfl⟩ := List.mem_map.mp h
  rfl

end Wiring

/-- The errors among the issues of single edges are their faults, edge by edge:
what other edges have been seen makes no difference. -/
theorem filter_isError_edgeIssuesFrom (seen : List String) :
    (edgeIssuesFrom nodes seen edges).filter (·.isError) =
      edges.flatMap fun edge => (edge.faults nodes).map edge.issue := by
  induction edges generalizing seen with
  | nil => rfl
  | cons edge rest ih =>
      rw [edgeIssuesFrom, List.flatMap_cons]
      split
      · next hnone =>
          rw [hnone, List.map_nil, List.nil_append]
          split
          · rw [List.filter_cons_of_neg (by simp), ih]
          · exact ih _
      · next hsome =>
          rw [List.filter_append, ih, List.filter_eq_self.mpr]
          intro issue hissue
          obtain ⟨fault, _, rfl⟩ := List.mem_map.mp hissue
          exact isError_issue edge fault

theorem countP_edgeIssues : (edgeIssues nodes edges).countP (·.isError) =
    (edges.flatMap (·.faults nodes)).length := by
  rw [List.countP_eq_length_filter, edgeIssues, filter_isError_edgeIssuesFrom]
  simp [List.length_flatMap]

theorem countP_wiringIssues (w : Wiring String) :
    w.issues.countP (·.isError) =
      w.startIssues.length + w.cycleIssues.length := by
  have hreach : w.reachIssues.countP (·.isError) = 0 := by
    rw [List.countP_eq_zero]
    intro issue hissue
    exact Bool.eq_false_iff.mp (isError_of_mem_reachIssues hissue)
  rw [Wiring.issues, List.countP_append, List.countP_append, hreach,
    List.countP_eq_length.mpr fun _ => isError_of_mem_startIssues,
    List.countP_eq_length.mpr fun _ => isError_of_mem_cycleIssues,
    Nat.add_zero]

/-- The errors of a report, check by check. -/
theorem errors_validate (nodes : List Node) (edges : List Edge) :
    (validate nodes edges).errors =
      (duplicateIssues nodes).length +
      (nodes.flatMap Node.fieldIssues).length +
      ((edges.flatMap (·.faults nodes)).length +
        (inputIssues nodes edges).length +
        (outputIssues nodes edges).length) +
      ((wiring nodes edges).startIssues.length +
        (wiring nodes edges).cycleIssues.length) := by
  have hfields : ∀ issue ∈ nodes.flatMap Node.fieldIssues,
      issue.isError = true := by
    intro issue hissue
    obtain ⟨node, _, hissue⟩ := List.mem_flatMap.mp hissue
    exact isError_of_mem_fieldIssues hissue
  simp only [validate, Report.ofIssues, List.countP_append, connectionIssues,
    countP_edgeIssues, countP_wiringIssues]
  rw [List.countP_eq_length.mpr fun _ => isError_of_mem_duplicateIssues,
    List.countP_eq_length.mpr hfields,
    List.countP_eq_length.mpr fun _ => isError_of_mem_inputIssues,
    List.countP_eq_length.mpr fun _ => isError_of_mem_outputIssues]

/-! ## Which codes they have -/

theorem code_of_mem_duplicateIssues (h : issue ∈ duplicateIssues nodes) :
    issue.code = .duplicateNodeId := by
  obtain ⟨node, _, rfl⟩ := List.mem_map.mp h
  rfl

theorem code_of_mem_fieldIssues (h : issue ∈ node.fieldIssues) :
    issue.code ∈ [.missingRequiredField, .invalidField] := by
  obtain ⟨_, rfl⟩ | ⟨_, rfl⟩ := exists_of_mem_fieldIssues h
  · exact .head _
  · exact .tail _ (.head _)

theorem code_issue (edge : Edge) (fault : EdgeFault) :
    (edge.issue fault).code ∈
      [.selfLoop, .danglingEdge, .unknownPort, .typeMismatch] := by
  cases fault <;> simp [Edge.issue, Issue.error]

theorem code_of_mem_edgeIssues (h : issue ∈ edgeIssues nodes edges) :
    issue.code ∈ [.selfLoop, .danglingEdge, .unknownPort, .typeMismatch,
      .duplicateEdge] := by
  obtain ⟨edge, _, ⟨fault, rfl⟩ | rfl⟩ := exists_of_mem_edgeIssuesFrom h
  · exact List.mem_append_left [.duplicateEdge] (code_issue edge fault)
  · simp [Edge.duplicateIssue, Issue.warning]

theorem code_of_mem_inputIssues (h : issue ∈ inputIssues nodes edges) :
    issue.code = .missingRequiredInput := by
  obtain ⟨_, _, _, _, rfl⟩ := exists_of_mem_inputIssues h
  rfl

theorem code_of_mem_outputIssues (h : issue ∈ outputIssues nodes edges) :
    issue.code = .tooManyConnections := by
  obtain ⟨_, _, _, _, _, _, rfl⟩ := exists_of_mem_outputIssues h
  rfl

section Wiring

variable {w : Wiring String}

theorem code_of_mem_startIssues (h : issue ∈ w.startIssues) :
    issue.code = .noStartNode := by
  rw [Wiring.startIssues] at h
  split at h
  · obtain rfl := List.mem_singleton.mp h
    rfl
  · cases h

theorem code_of_mem_cycleIssues (h : issue ∈ w.cycleIssues) :
    issue.code = .cycle := by
  rw [Wiring.cycleIssues] at h
  split at h
  · obtain rfl := List.mem_singleton.mp h
    rfl
  · cases h

theorem code_of_mem_reachIssues (h : issue ∈ w.reachIssues) :
    issue.code = .unreachableNode := by
  obtain ⟨_, _, rfl⟩ := List.mem_map.mp h
  rfl

theorem code_of_mem_wiringIssues (h : issue ∈ w.issues) :
    issue.code ∈ [.noStartNode, .cycle, .unreachableNode] := by
  rw [Wiring.issues, List.mem_append, List.mem_append, or_assoc] at h
  rcases h with h | h | h
  · simp [code_of_mem_startIssues h]
  · simp [code_of_mem_cycleIssues h]
  · simp [code_of_mem_reachIssues h]

/-- What planning has to say of vertices out of reach is only a warning. -/
theorem code_of_error_mem_wiringIssues (h : issue ∈ w.issues)
    (herror : issue.isError = true) :
    issue.code = .noStartNode ∨ issue.code = .cycle := by
  rw [Wiring.issues, List.mem_append, List.mem_append, or_assoc] at h
  rcases h with h | h | h
  · exact .inl (code_of_mem_startIssues h)
  · exact .inr (code_of_mem_cycleIssues h)
  · exact absurd herror (Bool.eq_false_iff.mp (isError_of_mem_reachIssues h))

end Wiring

/-- A check that raises one code only is asked for one. -/
theorem filter_code {issues : List Issue} {own : IssueCode}
    (h : ∀ issue ∈ issues, issue.code = own) (code : IssueCode) :
    issues.filter (·.code = code) = if own = code then issues else [] := by
  split
  · next heq =>
      subst heq
      exact List.filter_eq_self.mpr fun issue hissue => by simp [h issue hissue]
  · next hne =>
      exact List.filter_eq_nil_iff.mpr fun issue hissue => by
        simp [h issue hissue, hne]

/-- A check that raises some codes only is asked for another one. -/
theorem filter_code_of_not_mem {issues : List Issue} {codes : List IssueCode}
    {code : IssueCode} (h : ∀ issue ∈ issues, issue.code ∈ codes)
    (hcode : code ∉ codes) : issues.filter (·.code = code) = [] := by
  refine List.filter_eq_nil_iff.mpr fun issue hissue heq => hcode ?_
  exact of_decide_eq_true heq ▸ h issue hissue

theorem filter_code_fieldIssues {code : IssueCode}
    (hcode : code ∉ [.missingRequiredField, .invalidField]) :
    (nodes.flatMap Node.fieldIssues).filter (·.code = code) = [] := by
  refine filter_code_of_not_mem (fun issue hissue => ?_) hcode
  obtain ⟨node, _, hissue⟩ := List.mem_flatMap.mp hissue
  exact code_of_mem_fieldIssues hissue

theorem filter_code_edgeIssues {code : IssueCode}
    (hcode : code ∉ [.selfLoop, .danglingEdge, .unknownPort, .typeMismatch,
      .duplicateEdge]) :
    (edgeIssues nodes edges).filter (·.code = code) = [] :=
  filter_code_of_not_mem (fun _ => code_of_mem_edgeIssues) hcode

/-! ## When a check is silent -/

theorem repeatedNodesFrom_eq_nil (seen : List String) :
    repeatedNodesFrom seen nodes = [] ↔
      (nodes.map (·.id)).Nodup ∧ ∀ node ∈ nodes, node.id ∉ seen := by
  induction nodes generalizing seen with
  | nil => simp [repeatedNodesFrom]
  | cons node rest ih =>
      rw [repeatedNodesFrom]
      by_cases hseen : node.id ∈ seen
      · simp [hseen]
      · rw [if_neg hseen, ih, List.forall_mem_cons]
        simp only [List.map_cons, List.nodup_cons, List.mem_map,
          List.mem_cons, not_or, not_exists, not_and]
        constructor
        · intro ⟨hnodup, hrest⟩
          exact ⟨⟨fun x hx => (hrest x hx).1, hnodup⟩, hseen,
            fun x hx => (hrest x hx).2⟩
        · intro ⟨⟨hnew, hnodup⟩, _, hrest⟩
          exact ⟨hnodup, fun x hx => ⟨hnew x hx, hrest x hx⟩⟩

theorem duplicateIssues_eq_nil :
    duplicateIssues nodes = [] ↔ (nodes.map (·.id)).Nodup := by
  simp [duplicateIssues, repeatedNodesFrom_eq_nil]

theorem fieldIssues_eq_nil : node.fieldIssues = [] ↔
    (∀ r ∈ node.config.requirements, Text.isBlankText r.value = false) ∧
      node.config.badTemperature? = none := by
  simp [Node.fieldIssues, List.filter_eq_nil_iff, Option.toList_eq_nil_iff]

theorem portFaults_eq_nil {source target : Node} :
    edge.portFaults source target = [] ↔
      ∃ sourcePort targetPort,
        source.kind.port? .output edge.source.portId = some sourcePort ∧
        target.kind.port? .input edge.target.portId = some targetPort ∧
        sourcePort.dataType.compatible targetPort.dataType = true := by
  rw [Edge.portFaults]
  split
  · next sourcePort targetPort hs ht =>
      rw [hs, ht]
      by_cases hfit : sourcePort.dataType.compatible targetPort.dataType = true
      · simp [hfit]
      · simp [hfit]
  · next hs ht => simp [ht]
  · next hs ht => simp [hs]
  · next hs ht => simp [hs]

theorem faults_eq_nil : edge.faults nodes = [] ↔
    edge.source.nodeId ≠ edge.target.nodeId ∧
      ∃ source target,
        findNode? nodes edge.source.nodeId = some source ∧
        findNode? nodes edge.target.nodeId = some target ∧
        edge.portFaults source target = [] := by
  rw [Edge.faults]
  by_cases hloop : edge.isSelfLoop = true
  · simp [hloop, isSelfLoop_iff.mp hloop]
  · rw [if_neg hloop, and_iff_right (hloop ∘ isSelfLoop_iff.mpr)]
    split
    · next source target hs ht => simp [hs, ht]
    · next hs ht => simp [ht]
    · next hs ht => simp [hs]
    · next hs ht => simp [hs]

theorem inputIssues_eq_nil : inputIssues nodes edges = [] ↔
    ∀ node ∈ firstNodes nodes, ∀ port ∈ node.kind.inputs,
      port.required = true →
        ∃ edge ∈ connecting nodes edges, edge.enters node port = true := by
  simp [inputIssues, List.flatMap_eq_nil_iff, List.filter_eq_nil_iff]

theorem outputIssues_eq_nil : outputIssues nodes edges = [] ↔
    ∀ node ∈ firstNodes nodes, ∀ port ∈ node.kind.outputs,
      ∀ limit, port.maxConnections = some limit →
        connectionCount (connecting nodes edges) node port ≤ limit := by
  simp only [outputIssues, List.flatMap_eq_nil_iff, List.filterMap_eq_nil_iff]
  refine forall₂_congr fun node _ => forall₂_congr fun port _ => ?_
  cases port.maxConnections with
  | none => simp
  | some limit => simp

theorem startIssues_eq_nil {w : Wiring String} :
    w.startIssues = [] ↔ w.starts ≠ [] := by
  rw [Wiring.startIssues]
  split
  · next hstarts =>
      simp only [List.isEmpty_iff.mp hstarts, ne_eq, not_true_eq_false,
        List.cons_ne_nil]
  · next hstarts => simpa using hstarts

theorem cycleIssues_eq_nil {w : Wiring String} :
    w.cycleIssues = [] ↔ w.hasCycle = false := by
  rw [Wiring.cycleIssues]
  split
  · next hcycle => simp only [hcycle, List.cons_ne_nil, Bool.true_eq_false]
  · next hcycle => simpa using hcycle

end Flowgraph
