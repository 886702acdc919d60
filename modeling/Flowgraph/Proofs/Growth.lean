import Flowgraph.Proofs.Diagnosis
import Flowgraph.Proofs.EdgeVerdicts
import Flowgraph.Proofs.Ends

/-!
# Graphs with more edges

Whatever is wrong with a graph stays wrong when edges are added, with one
exception: an input that requires an edge may get one. Most checks have an
argument of their own for that. The errors of single edges are those of the
edges, one by one; a limited output has at least as many connections as before;
a circle of edges is still there; and a node that was fed is still fed, so the
nodes to start from become fewer.

It is the code of an error that stays, and not always the error: the number of
connections and the nodes behind a circle are told with it, and both may grow.
-/

namespace Flowgraph

variable {nodes : List Node} {edges xs ys : List Edge} {code : IssueCode}

/-! ## Check by check -/

theorem edgeErrors_subset (h : xs ⊆ ys) :
    edgeErrors nodes xs ⊆ edgeErrors nodes ys := by
  rw [edgeErrors_eq, edgeErrors_eq]
  intro issue hissue
  obtain ⟨edge, hedge, hissue⟩ := List.mem_flatMap.mp hissue
  exact List.mem_flatMap.mpr ⟨edge, h hedge, hissue⟩

theorem outputIssues_eq_nil_of_subset
    (h : connections nodes xs ⊆ connections nodes ys)
    (hnil : outputIssues nodes ys = []) : outputIssues nodes xs = [] := by
  rw [outputIssues_eq_nil] at hnil ⊢
  intro node hnode port hport limit hlimit
  exact (connectionCount_le h node port).trans
    (hnil node hnode port hport limit hlimit)

theorem linked_mono (h : xs ⊆ ys) : Linked nodes xs ≤ Linked nodes ys := by
  rintro u v ⟨⟨edge, hedge, hends⟩, hnodes⟩
  exact ⟨⟨edge, h hedge, hends⟩, hnodes⟩

theorem OnCircle.of_subset {id : String} (h : xs ⊆ ys)
    (hcircle : OnCircle nodes xs id) : OnCircle nodes ys id :=
  Relation.TransGen.mono (linked_mono h) id id hcircle

/-! ## The report -/

theorem raises_noStartNode_of_subset (h : xs ⊆ ys)
    (hstart : (validate nodes xs).Raises .noStartNode) :
    (validate nodes ys).Raises .noStartNode := by
  rw [raises_noStartNode_iff] at hstart ⊢
  exact List.sublist_nil.mp (hstart ▸ starts_sublist (connections_subset h))

theorem raises_cycle_of_subset (h : xs ⊆ ys)
    (hcycle : (validate nodes xs).Raises .cycle) :
    (validate nodes ys).Raises .cycle := by
  rw [raises_cycle_iff, unordered_ne_nil_iff] at hcycle ⊢
  obtain ⟨id, hcircle⟩ := hcycle
  exact ⟨id, hcircle.of_subset h⟩

/-- The checks are gone through by the issue that is there with fewer edges. -/
theorem raises_of_subset (h : xs ⊆ ys) (hcode : code ≠ .missingRequiredInput)
    (hraises : (validate nodes xs).Raises code) :
    (validate nodes ys).Raises code := by
  obtain ⟨issue, hissue, herror, rfl⟩ := hraises
  -- Where the very same issue is found again nothing else is to be shown.
  have hsame (hys : issue ∈ (validate nodes ys).issues) :
      (validate nodes ys).Raises issue.code := ⟨issue, hys, herror, rfl⟩
  rcases mem_issues.mp hissue with
    hnodes | hfields | hedges | hinputs | houtputs | hwiring
  · exact hsame (mem_issues.mpr (.inl hnodes))
  · exact hsame (mem_issues.mpr (.inr (.inl hfields)))
  · have hown : issue ∈ edgeErrors nodes ys :=
      edgeErrors_subset h (List.mem_filter.mpr ⟨hedges, herror⟩)
    exact hsame (mem_issues.mpr
      (.inr (.inr (.inl (List.mem_of_mem_filter hown)))))
  · exact absurd (code_of_mem_inputIssues hinputs) hcode
  · have hne : outputIssues nodes ys ≠ [] := fun hnil =>
      List.ne_nil_of_mem houtputs
        (outputIssues_eq_nil_of_subset (connections_subset h) hnil)
    obtain ⟨other, hother⟩ := List.exists_mem_of_ne_nil _ hne
    refine ⟨other, mem_issues.mpr (.inr (.inr (.inr (.inr (.inl hother))))),
      isError_of_mem_outputIssues hother, ?_⟩
    rw [code_of_mem_outputIssues hother, code_of_mem_outputIssues houtputs]
  · rcases code_of_error_mem_wiringIssues hwiring herror with hcode | hcode
    · rw [hcode]
      exact raises_noStartNode_of_subset h ⟨issue, hissue, herror, hcode⟩
    · rw [hcode]
      exact raises_cycle_of_subset h ⟨issue, hissue, herror, hcode⟩

theorem plan_eq_none_of_raises (h : (validate nodes edges).Raises code) :
    (validate nodes edges).plan = none := by
  obtain ⟨issue, hissue, herror, _⟩ := h
  have hpos : (validate nodes edges).errors ≠ 0 :=
    Nat.ne_of_gt (List.countP_pos_iff.mpr ⟨issue, hissue, herror⟩)
  exact Option.not_isSome_iff_eq_none.mp (hpos ∘ plan_isSome_iff.mp)

/-- Nothing but a missing input is mended by adding edges. The code of every
other error is still raised, no input is missing that was not missing before,
and the nodes to start from are among those that there were, in their order. So
a graph that has one of the other errors has no plan, whatever edges it gets. -/
theorem edges_mend_missing_inputs_only (nodes : List Node) (xs ys : List Edge)
    (h : ∀ edge ∈ xs, edge ∈ ys) :
    (∀ code, code ≠ .missingRequiredInput →
      (validate nodes xs).Raises code → (validate nodes ys).Raises code) ∧
    ((validate nodes ys).issuesOf .missingRequiredInput).Sublist
      ((validate nodes xs).issuesOf .missingRequiredInput) ∧
    (wiring nodes ys).starts.Sublist (wiring nodes xs).starts ∧
    ((∃ code, code ≠ .missingRequiredInput ∧
      (validate nodes xs).Raises code) → (validate nodes ys).plan = none) := by
  have hsub : xs ⊆ ys := fun edge => h edge
  have hends : connections nodes xs ⊆ connections nodes ys :=
    connections_subset hsub
  refine ⟨fun code => raises_of_subset hsub, ?_, starts_sublist hends, ?_⟩
  · rw [issuesOf_missingRequiredInput, issuesOf_missingRequiredInput]
    exact inputIssues_sublist hends
  · rintro ⟨code, hcode, hraises⟩
    exact plan_eq_none_of_raises (raises_of_subset hsub hcode hraises)

/-- The last edge of the knot feeds the node that waits for an input, and does
nothing about the circle. -/
theorem edges_mend_missing_inputs_only_knot :
    (∀ edge ∈ Graph.knot.edges.take 2, edge ∈ Graph.knot.edges) ∧
      (validate Graph.knot.nodes
        (Graph.knot.edges.take 2)).Raises .cycle ∧
      ((validate Graph.knot.nodes (Graph.knot.edges.take 2)).issuesOf
        .missingRequiredInput).length = 1 ∧
      Graph.knot.validate.issuesOf .missingRequiredInput = [] ∧
      Graph.knot.validate.Raises .cycle ∧
      Graph.knot.validate.plan = none := by
  have hsub : ∀ edge ∈ Graph.knot.edges.take 2, edge ∈ Graph.knot.edges := by
    decide
  have hcycle : (validate Graph.knot.nodes
      (Graph.knot.edges.take 2)).Raises .cycle := by decide
  obtain ⟨hraises, _, _, hplan⟩ :=
    edges_mend_missing_inputs_only Graph.knot.nodes
      (Graph.knot.edges.take 2) Graph.knot.edges hsub
  exact ⟨hsub, hcycle, by decide, by decide,
    hraises .cycle (by decide) hcycle, hplan ⟨.cycle, by decide, hcycle⟩⟩

end Flowgraph
