import Flowgraph.Proofs.Duplicates
import Flowgraph.Proofs.Handles

/-!
# Copies of an edge

A copy of an edge has its ends, whatever its id and however its ports are
spelled. Behind the edges of a graph it adds nothing to the ends that they have,
so no check but that of single edges can tell that it is there. That one can: if
the edge is right then the connection has been seen when its copy is looked at,
and the copy is warned of.

Planning needs a little more, because it keeps to the order in which nodes are
first joined. A copy comes too late to be the first.
-/

namespace Flowgraph

variable {nodes : List Node} {edges : List Edge} {edge copy : Edge}

/-! ## Reports with a warning more -/

/-- A report that has one warning more than another one, between what is in
front of it and the rest, and does not differ from it otherwise. -/
structure Report.GainsWarning (old new : Report) (front rest : List Issue)
    (warning : Issue) : Prop where
  isWarning : warning.isWarning = true
  issues_old : old.issues = front ++ rest
  issues_new : new.issues = front ++ warning :: rest
  errors_eq : new.errors = old.errors
  warnings_eq : new.warnings = old.warnings + 1
  missing_eq : new.missingRequiredCount = old.missingRequiredCount
  plan_eq : new.plan = old.plan

/-- One warning among the issues makes that difference, unless it is counted as
something missing. -/
theorem Report.gainsWarning_ofIssues (front rest : List Issue) (warning : Issue)
    (plan : Option Plan) (hwarning : warning.severity = .warning)
    (hcode : warning.code.isMissingRequired = false) :
    (ofIssues (front ++ rest) plan).GainsWarning
      (ofIssues (front ++ warning :: rest) plan) front rest warning := by
  have hisWarning : warning.isWarning = true := by
    rw [Issue.isWarning, hwarning]
    rfl
  have hisError : warning.isError = false := by
    rw [Issue.isError, hwarning]
    rfl
  have hcount (p : Issue → Bool) : (front ++ warning :: rest).countP p =
      (front ++ rest).countP p + if p warning then 1 else 0 := by
    rw [List.countP_append, List.countP_cons, List.countP_append,
      Nat.add_assoc]
  have herrors : (ofIssues (front ++ warning :: rest) plan).errors =
      (ofIssues (front ++ rest) plan).errors := by
    simp only [ofIssues, hcount, hisError, Bool.false_eq_true, if_false,
      Nat.add_zero]
  refine ⟨hisWarning, rfl, rfl, herrors, ?_, ?_, ?_⟩
  · simp only [ofIssues, hcount, hisWarning, if_true]
  · simp only [ofIssues, hcount, hcode, Bool.false_eq_true, if_false,
      Nat.add_zero]
  · show (if (ofIssues (front ++ warning :: rest) plan).errors = 0 then plan
      else none) = _
    rw [herrors]
    rfl

/-! ## What a copy adds -/

section Copy

variable (hedge : edge ∈ edges) (hcopy : copy.SameEnds edge)
include hedge hcopy

theorem connections_copy_subset :
    connections nodes [copy] ⊆ connections nodes edges := by
  have hsame : connections nodes [copy] = connections nodes [edge] := by
    rw [connections_eq, List.map_singleton, Edge.sameEnds_iff.mp hcopy,
      connections_eq, List.map_singleton]
  rw [hsame]
  exact connections_subset (List.cons_subset.mpr ⟨hedge, List.nil_subset _⟩)

theorem connections_concat_subset :
    connections nodes (edges ++ [copy]) ⊆ connections nodes edges := by
  rw [connections_append]
  exact List.append_subset.mpr
    ⟨List.Subset.refl _, connections_copy_subset hedge hcopy⟩

theorem inputIssues_concat_copy :
    inputIssues nodes (edges ++ [copy]) = inputIssues nodes edges :=
  inputIssues_congr (connections_concat_subset hedge hcopy)
    (connections_subset (List.subset_append_left _ _))

theorem outputIssues_concat_copy :
    outputIssues nodes (edges ++ [copy]) = outputIssues nodes edges :=
  outputIssues_congr (connections_concat_subset hedge hcopy)
    (connections_subset (List.subset_append_left _ _))

theorem wiring_concat_copy :
    wiring nodes (edges ++ [copy]) = wiring nodes edges := by
  refine wiring_eq_of_links ?_
  rw [links_wiring, links_wiring, connections_append, List.map_append]
  exact eraseDups_append_of_subset
    (List.map_subset _ (connections_copy_subset hedge hcopy))

theorem edgeIssues_concat_copy (hfaults : edge.faults nodes = []) :
    edgeIssues nodes (edges ++ [copy]) =
      edgeIssues nodes edges ++ [copy.duplicateIssue] := by
  have hright : copy.faults nodes = [] := (hcopy.faults_eq nodes).trans hfaults
  have hseen : copy.connection ∈ connectionTexts nodes edges :=
    mem_connectionTexts.mpr
      ⟨edge, mem_faultless.mpr ⟨hedge, hfaults⟩, hcopy.connection_eq.symm⟩
  rw [edgeIssues_concat]
  simp only [Edge.ownIssues, hright, hseen, if_true]

end Copy

theorem faults_of_edgeErrors (h : edgeErrors nodes [edge] = []) :
    edge.faults nodes = [] := by
  rw [edgeErrors_cons, List.append_eq_nil_iff] at h
  exact List.map_eq_nil_iff.mp h.1

/-- Where an edge has no error, a copy of it behind all edges comes to one
warning, which names the copy and stands behind the other issues of single
edges. All else in the report is as before. -/
theorem copies_add_one_warning (nodes : List Node) (hedge : edge ∈ edges)
    (hright : edgeErrors nodes [edge] = []) (hcopy : copy.SameEnds edge) :
    ∃ warning : Issue, warning.code = .duplicateEdge ∧
      warning.edgeId = some copy.id ∧
      edgeIssues nodes (edges ++ [copy]) =
        edgeIssues nodes edges ++ [warning] ∧
      (validate nodes edges).GainsWarning (validate nodes (edges ++ [copy]))
        (duplicateIssues nodes ++ nodes.flatMap Node.fieldIssues ++
          edgeIssues nodes edges)
        (inputIssues nodes edges ++ outputIssues nodes edges ++
          (wiring nodes edges).issues) warning := by
  have hissues :=
    edgeIssues_concat_copy hedge hcopy (faults_of_edgeErrors hright)
  have hgains := Report.gainsWarning_ofIssues
    (duplicateIssues nodes ++ nodes.flatMap Node.fieldIssues ++
      edgeIssues nodes edges)
    (inputIssues nodes edges ++ outputIssues nodes edges ++
      (wiring nodes edges).issues)
    copy.duplicateIssue (wiring nodes edges).plan? rfl rfl
  refine ⟨copy.duplicateIssue, rfl, rfl, hissues, ?_⟩
  rw [validate, validate, connectionIssues, connectionIssues, hissues,
    inputIssues_concat_copy hedge hcopy, outputIssues_concat_copy hedge hcopy,
    wiring_concat_copy hedge hcopy]
  simpa only [List.append_assoc, List.cons_append, List.nil_append] using hgains

/-- The fourth edge of the diamond, by a port that it leaves out. -/
def diamondAgain : Edge :=
  ⟨"again", ⟨"start", some "out"⟩, { nodeId := "left" }⟩

/-- There is a copy of it already, so now there are two. -/
theorem copies_add_one_warning_diamond :
    edgeErrors diamond.nodes
        [⟨"e4", { nodeId := "start" }, { nodeId := "left" }⟩] = [] ∧
      ∃ warning : Issue, warning.code = .duplicateEdge ∧
        warning.edgeId = some "again" ∧ diamond.validate.warnings = 1 ∧
        (validate diamond.nodes (diamond.edges ++ [diamondAgain])).warnings =
          2 ∧
        (validate diamond.nodes (diamond.edges ++ [diamondAgain])).plan =
          diamond.validate.plan := by
  have hedge : ⟨"e4", { nodeId := "start" }, { nodeId := "left" }⟩ ∈
      diamond.edges := by decide
  have hright : edgeErrors diamond.nodes
      [⟨"e4", { nodeId := "start" }, { nodeId := "left" }⟩] = [] := by decide
  have hcopy : diamondAgain.SameEnds
      ⟨"e4", { nodeId := "start" }, { nodeId := "left" }⟩ := by decide
  have hone : diamond.validate.warnings = 1 := by decide
  obtain ⟨warning, hcode, hid, _, hgains⟩ :=
    copies_add_one_warning diamond.nodes hedge hright hcopy
  exact ⟨hright, warning, hcode, hid, hone,
    hgains.warnings_eq.trans (congrArg (· + 1) hone), hgains.plan_eq⟩

end Flowgraph
