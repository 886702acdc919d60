import Flowgraph.Proofs.Listing

/-!
# Edges that are reported as repeated

An edge repeats an earlier one if both are right and have the same ends: node
and port on either side. What is compared is not the ends though, but the text
that is made of them, and ids are free to contain what separates its parts. So
the warnings are as many as the edges that are right, less the different texts
among them; they are exact if and only if these texts are as many as the ends,
that is if no text is that of two different pairs of ends.

A text can be read in two ways only if an arrow stands in the id of a node that
an edge leaves. Where the arrow of a text stands is clear otherwise, and behind
it only the target is left to differ, since all inputs have the same name. In
front of it the last colon separates the port, since no port has one.
-/

namespace Flowgraph

variable {nodes : List Node} {edges : List Edge} {edge : Edge}

/-! ## The condition -/

/-- The edges that are right by themselves. -/
def faultless (nodes : List Node) (edges : List Edge) : List Edge :=
  edges.filter fun edge => edge.faults nodes = []

/-- An edge is right, and so is one before it that has the same ends. -/
def Edge.Repeats (nodes : List Node) (before : List Edge) (edge : Edge) :
    Prop :=
  edge.faults nodes = [] ∧ edge.ends ∈ (faultless nodes before).map Edge.ends

instance (before : List Edge) : Decidable (edge.Repeats nodes before) :=
  inferInstanceAs (Decidable (_ ∧ _))

/-- What an edge adds to the issues of those before it is a warning that it is
repeated, or is free of such warnings, as it does or does not repeat one of
them; and so the warnings are as many as the edges that are right, less the
different ends among them. -/
structure DuplicatesExact (nodes : List Node) (edges : List Edge) : Prop where
  warned : ∀ before edge after, edges = before ++ edge :: after →
    ∃ own rest,
      edgeIssues nodes (before ++ [edge]) = edgeIssues nodes before ++ own ∧
      connectionIssues nodes edges = edgeIssues nodes before ++ own ++ rest ∧
      own.filter (·.code = .duplicateEdge) =
        if edge.Repeats nodes before then [edge.duplicateIssue] else []
  counted : (connectionIssues nodes edges).countP (·.code = .duplicateEdge) +
    ((faultless nodes edges).map Edge.ends).toFinset.card =
      (faultless nodes edges).length

/-- Edges that are right and have different ends have different texts. -/
def ToldApart (nodes : List Node) (edges : List Edge) : Prop :=
  ∀ a ∈ faultless nodes edges, ∀ b ∈ faultless nodes edges,
    a.connection = b.connection → a.ends = b.ends

/-! ## Which issues are warnings of this kind -/

theorem mem_faultless :
    edge ∈ faultless nodes edges ↔ edge ∈ edges ∧ edge.faults nodes = [] := by
  rw [faultless, List.mem_filter, decide_eq_true_eq]

theorem code_issue_ne (edge : Edge) (fault : EdgeFault) :
    (edge.issue fault).code ≠ .duplicateEdge := by
  cases fault <;> exact IssueCode.noConfusion

theorem countP_inputIssues :
    (inputIssues nodes edges).countP (·.code = .duplicateEdge) = 0 := by
  rw [List.countP_eq_length_filter,
    filter_code fun _ => code_of_mem_inputIssues]
  rfl

theorem countP_outputIssues :
    (outputIssues nodes edges).countP (·.code = .duplicateEdge) = 0 := by
  rw [List.countP_eq_length_filter,
    filter_code fun _ => code_of_mem_outputIssues]
  rfl

theorem countP_connectionIssues :
    (connectionIssues nodes edges).countP (·.code = .duplicateEdge) =
      (edgeIssues nodes edges).countP (·.code = .duplicateEdge) := by
  rw [connectionIssues, List.countP_append, List.countP_append,
    countP_inputIssues, countP_outputIssues]
  rfl

theorem filter_ownIssues (seen : List String) :
    (edge.ownIssues nodes seen).filter (·.code = .duplicateEdge) =
      if edge.faults nodes = [] ∧ edge.connection ∈ seen then
        [edge.duplicateIssue]
      else [] := by
  rw [Edge.ownIssues]
  cases hfaults : edge.faults nodes with
  | nil =>
      simp only [true_and]
      split <;> rfl
  | cons fault faults =>
      rw [if_neg fun h : _ ∧ _ => List.cons_ne_nil _ _ h.1]
      refine List.filter_eq_nil_iff.mpr fun issue hissue => ?_
      obtain ⟨fault, _, rfl⟩ := List.mem_map.mp hissue
      simpa using code_issue_ne edge fault

/-! ## What is compared -/

/-- The texts of the edges that are right. -/
def connectionTexts (nodes : List Node) (edges : List Edge) : List String :=
  (faultless nodes edges).map Edge.connection

theorem mem_connectionTexts {c : String} : c ∈ connectionTexts nodes edges ↔
    ∃ edge ∈ faultless nodes edges, edge.connection = c :=
  List.mem_map

/-- Behind other edges, the texts of those that are right have been seen. -/
theorem edgeIssues_append (before rest : List Edge) :
    edgeIssues nodes (before ++ rest) = edgeIssues nodes before ++
      edgeIssuesFrom nodes (connectionTexts nodes before) rest := by
  suffices hfrom : ∀ seen, edgeIssuesFrom nodes seen (before ++ rest) =
      edgeIssuesFrom nodes seen before ++ edgeIssuesFrom nodes
        (connectionTexts nodes before ++ seen) rest by
    simpa only [edgeIssues, List.append_nil] using hfrom []
  induction before with
  | nil => exact fun _ => rfl
  | cons first before ih =>
      intro seen
      rw [List.cons_append, edgeIssuesFrom_cons, edgeIssuesFrom_cons, ih,
        List.append_assoc]
      refine congrArg _ (congrArg _ (edgeIssuesFrom_congr fun c => ?_))
      simp only [List.mem_append, Edge.mem_seenAfter, mem_connectionTexts,
        mem_faultless, List.mem_cons]
      grind

theorem edgeIssues_append_cons (nodes : List Node) (before : List Edge)
    (edge : Edge) (after : List Edge) :
    ∃ rest, edgeIssues nodes (before ++ edge :: after) =
      edgeIssues nodes before ++
        edge.ownIssues nodes (connectionTexts nodes before) ++ rest :=
  ⟨_, by rw [edgeIssues_append, edgeIssuesFrom_cons, List.append_assoc]⟩

theorem edgeIssues_concat (before : List Edge) :
    edgeIssues nodes (before ++ [edge]) = edgeIssues nodes before ++
      edge.ownIssues nodes (connectionTexts nodes before) := by
  rw [edgeIssues_append, edgeIssuesFrom_cons, edgeIssuesFrom, List.append_nil]

theorem faultless_concat_of_right (before : List Edge)
    (h : edge.faults nodes = []) :
    faultless nodes (before ++ [edge]) = faultless nodes before ++ [edge] := by
  simp [faultless, List.filter_append, h]

theorem faultless_concat_of_wrong (before : List Edge)
    (h : edge.faults nodes ≠ []) :
    faultless nodes (before ++ [edge]) = faultless nodes before := by
  simp [faultless, List.filter_append, h]

theorem countP_ownIssues (seen : List String) :
    (edge.ownIssues nodes seen).countP (·.code = .duplicateEdge) =
      if edge.faults nodes = [] ∧ edge.connection ∈ seen then 1 else 0 := by
  rw [List.countP_eq_length_filter, filter_ownIssues]
  split <;> rfl

/-- The warnings and the different texts are as many as the edges that are
right: the text of such an edge is new, or else there is a warning. -/
theorem countP_edgeIssues_add_card (nodes : List Node) (edges : List Edge) :
    (edgeIssues nodes edges).countP (·.code = .duplicateEdge) +
      (connectionTexts nodes edges).toFinset.card =
        (faultless nodes edges).length := by
  induction edges using List.reverseRecOn with
  | nil => rfl
  | append_singleton before edge ih =>
      rw [edgeIssues_concat, List.countP_append, countP_ownIssues]
      by_cases hfaults : edge.faults nodes = []
      · have hinsert : (connectionTexts nodes (before ++ [edge])).toFinset =
            insert edge.connection
              (connectionTexts nodes before).toFinset := by
          rw [connectionTexts, faultless_concat_of_right before hfaults]
          ext c
          simp [connectionTexts, eq_comm]
        rw [hinsert, Finset.card_insert_eq_ite,
          faultless_concat_of_right before hfaults, List.length_append, ← ih]
        simp only [hfaults, true_and, List.mem_toFinset, List.length_singleton]
        split <;> omega
      · rw [if_neg fun h : _ ∧ _ => hfaults h.1, connectionTexts,
          faultless_concat_of_wrong before hfaults]
        exact ih

/-! ## What the texts tell apart -/

theorem card_connectionTexts_eq_iff :
    (connectionTexts nodes edges).toFinset.card =
      ((faultless nodes edges).map Edge.ends).toFinset.card ↔
        ToldApart nodes edges := by
  have himage : (connectionTexts nodes edges).toFinset =
      ((faultless nodes edges).map Edge.ends).toFinset.image
        connectionText := by
    ext c
    simp [mem_connectionTexts, connectionText_ends]
  rw [himage, Finset.card_image_iff, Set.InjOn, ToldApart]
  simp only [Finset.mem_coe, List.mem_toFinset, List.mem_map,
    forall_exists_index, and_imp, forall_apply_eq_imp_iff₂,
    connectionText_ends]

theorem ToldApart.mem_connectionTexts {before after : List Edge}
    (h : ToldApart nodes (before ++ edge :: after))
    (hfaults : edge.faults nodes = []) :
    edge.connection ∈ connectionTexts nodes before ↔
      edge.ends ∈ (faultless nodes before).map Edge.ends := by
  rw [Flowgraph.mem_connectionTexts, List.mem_map]
  refine exists_congr fun earlier => and_congr_right fun hearlier => ?_
  obtain ⟨hmem, hright⟩ := mem_faultless.mp hearlier
  refine ⟨h earlier ?_ edge ?_, fun hends => ?_⟩
  · exact mem_faultless.mpr ⟨List.mem_append_left _ hmem, hright⟩
  · exact mem_faultless.mpr ⟨by simp, hfaults⟩
  · rw [← connectionText_ends, hends, connectionText_ends]

theorem ToldApart.warned {before after : List Edge}
    (h : ToldApart nodes (before ++ edge :: after)) :
    (edge.ownIssues nodes (connectionTexts nodes before)).filter
        (·.code = .duplicateEdge) =
      if edge.Repeats nodes before then [edge.duplicateIssue] else [] := by
  rw [filter_ownIssues]
  refine if_congr (and_congr_right fun hfaults => ?_) rfl rfl
  exact h.mem_connectionTexts hfaults

theorem duplicatesExact_iff :
    DuplicatesExact nodes edges ↔ ToldApart nodes edges := by
  have hcount := countP_edgeIssues_add_card nodes edges
  constructor
  · intro h
    have hcounted := h.counted
    rw [countP_connectionIssues] at hcounted
    exact card_connectionTexts_eq_iff.mp (by omega)
  · intro h
    refine ⟨fun before edge after hedges => ?_, ?_⟩
    · obtain ⟨rest, hrest⟩ := edgeIssues_append_cons nodes before edge after
      refine ⟨_, rest ++ inputIssues nodes edges ++ outputIssues nodes edges,
        edgeIssues_concat before, ?_, ToldApart.warned (hedges ▸ h)⟩
      rw [connectionIssues, hedges, hrest]
      simp only [List.append_assoc]
    · rw [countP_connectionIssues, ← card_connectionTexts_eq_iff.mpr h]
      exact hcount

/-! ## Where a text can be read in two ways -/

section Texts

variable {a b c d : List Char}

/-- An arrow that stands in neither part in front of it shows where they end. -/
theorem append_arrow_inj (ha : ¬ ['-', '>'] <:+: a) (hc : ¬ ['-', '>'] <:+: c)
    (h : a ++ '-' :: '>' :: b = c ++ '-' :: '>' :: d) : a = c ∧ b = d := by
  -- If one part were longer it would have the arrow of the other in it.
  have hlonger : ∀ m x y : List Char,
      '-' :: '>' :: x = m ++ '-' :: '>' :: y → m = [] ∨ ['-', '>'] <+: m := by
    intro m x y hm
    match m with
    | [] => exact .inl rfl
    | [_] => simp at hm
    | _ :: _ :: m =>
        simp only [List.cons_append, List.cons.injEq] at hm
        obtain ⟨rfl, rfl, _⟩ := hm
        exact .inr ⟨m, rfl⟩
  obtain ⟨m, rfl, hm⟩ | ⟨m, rfl, hm⟩ := List.append_eq_append_iff.mp h
  · obtain rfl | harrow := hlonger m _ _ hm
    · simpa using hm
    · exact absurd (harrow.isInfix.trans (List.suffix_append _ _).isInfix) hc
  · obtain rfl | harrow := hlonger m _ _ hm
    · simpa [eq_comm] using hm
    · exact absurd (harrow.isInfix.trans (List.suffix_append _ _).isInfix) ha

/-- A colon that does not stand behind itself shows where it is. -/
theorem append_colon_inj (hb : ':' ∉ b) (hd : ':' ∉ d)
    (h : a ++ ':' :: b = c ++ ':' :: d) : a = c ∧ b = d := by
  have hlonger : ∀ m x y : List Char, ':' ∉ x →
      ':' :: x = m ++ ':' :: y → m = [] := by
    intro m x y hx hm
    cases m with
    | nil => rfl
    | cons _ m =>
        simp only [List.cons_append, List.cons.injEq] at hm
        exact absurd (by simp [hm.2]) hx
  obtain ⟨m, rfl, hm⟩ | ⟨m, rfl, hm⟩ := List.append_eq_append_iff.mp h
  · obtain rfl := hlonger m _ _ hb hm
    simpa using hm
  · obtain rfl := hlonger m _ _ hd hm
    simpa [eq_comm] using hm

/-- A port without a dash adds no arrow. -/
theorem no_arrow_append (ha : ¬ ['-', '>'] <:+: a) (hb : '-' ∉ b) :
    ¬ ['-', '>'] <:+: a ++ ':' :: b := by
  intro ⟨x, y, h⟩
  rw [List.append_assoc, List.cons_append, List.cons_append,
    List.nil_append] at h
  obtain ⟨m, rfl, hm⟩ | ⟨m, rfl, hm⟩ := List.append_eq_append_iff.mp h
  · match m with
    | [] => simp at hm
    | [_] => simp at hm
    | _ :: _ :: m =>
        simp only [List.cons_append, List.cons.injEq] at hm
        obtain ⟨rfl, rfl, _⟩ := hm
        exact ha ⟨x, m, by simp⟩
  · cases m with
    | nil => simp at hm
    | cons _ m =>
        simp only [List.cons_append, List.cons.injEq] at hm
        exact hb (by simp [hm.2])

end Texts

theorem Edge.Fits.sourcePort_plain (h : edge.Fits nodes) :
    ':' ∉ edge.sourcePort.toList ∧ '-' ∉ edge.sourcePort.toList := by
  obtain ⟨_, source, _, _, _, _, _, out, hout, hid, _⟩ := h
  have hplain : ∀ kind : NodeKind, ∀ port ∈ kind.outputs,
      ':' ∉ port.id.toList ∧ '-' ∉ port.id.toList := by
    intro kind
    cases kind <;> decide
  have hsame : out.id = edge.sourcePort := hid
  exact hsame ▸ hplain source.kind out hout

theorem toList_connection (edge : Edge) : edge.connection.toList =
    (edge.source.nodeId.toList ++ ':' :: edge.sourcePort.toList) ++
      '-' :: '>' :: (edge.target.nodeId.toList ++
        ':' :: edge.targetPort.toList) := by
  simp [Edge.connection]

/-- Without an arrow in the id of a node that an edge leaves, texts can be read
in one way only. -/
theorem toldApart_of_no_arrow
    (h : ∀ edge ∈ edges, ¬ ['-', '>'] <:+: edge.source.nodeId.toList) :
    ToldApart nodes edges := by
  intro a ha b hb htext
  obtain ⟨hae, har⟩ := mem_faultless.mp ha
  obtain ⟨hbe, hbr⟩ := mem_faultless.mp hb
  have hafit := fits_of_right har
  have hbfit := fits_of_right hbr
  obtain ⟨hacolon, hadash⟩ := hafit.sourcePort_plain
  obtain ⟨hbcolon, hbdash⟩ := hbfit.sourcePort_plain
  have hchars := congrArg String.toList htext
  rw [toList_connection, toList_connection] at hchars
  obtain ⟨hsource, htarget⟩ := append_arrow_inj
    (no_arrow_append (h a hae) hadash) (no_arrow_append (h b hbe) hbdash) hchars
  obtain ⟨hnode, hsourcePort⟩ := append_colon_inj hacolon hbcolon hsource
  have hport := hafit.targetPort_eq.trans hbfit.targetPort_eq.symm
  rw [hport] at htarget
  rw [Edge.ends, Edge.ends, hport, String.toList_inj.mp hnode,
    String.toList_inj.mp hsourcePort,
    String.toList_inj.mp (List.append_cancel_right htarget)]

/-! ## The warnings -/

/-- Warnings of repeated edges are exact if and only if no two different pairs
of ends make one text, and that is so at least where no edge leaves a node with
an arrow in its id. -/
theorem duplicates_exact_iff_toldApart (nodes : List Node) (edges : List Edge) :
    (DuplicatesExact nodes edges ↔ ToldApart nodes edges) ∧
      ((∀ edge ∈ edges, ¬ ['-', '>'] <:+: edge.source.nodeId.toList) →
        DuplicatesExact nodes edges) :=
  ⟨duplicatesExact_iff, fun h =>
    duplicatesExact_iff.mpr (toldApart_of_no_arrow h)⟩

/-- Two nodes between which there are two edges. One of the edges names the
port that the other one leaves out. -/
def Graph.twice : Graph where
  nodes := [.new "start" .trigger, .new "end" .output]
  edges :=
    [⟨"e", ⟨"start", none⟩, ⟨"end", none⟩⟩,
     ⟨"f", ⟨"start", some "out"⟩, ⟨"end", some "in"⟩⟩]

theorem duplicates_exact_twice :
    (∀ edge ∈ Graph.twice.edges,
      ¬ ['-', '>'] <:+: edge.source.nodeId.toList) ∧
    DuplicatesExact Graph.twice.nodes Graph.twice.edges ∧
    (connectionIssues Graph.twice.nodes Graph.twice.edges).map (·.edgeId) =
      [some "f"] :=
  ⟨by decide,
    (duplicates_exact_iff_toldApart _ _).2 (by decide), by decide⟩

/-- Two edges between four nodes, whose ids are made up to give one text. -/
def Graph.lookalike : Graph where
  nodes :=
    [.new "a:out->b" .trigger, .new "a" .trigger, .new "c" .output,
     .new "b:out->c" .output]
  edges :=
    [⟨"e", ⟨"a:out->b", none⟩, ⟨"c", none⟩⟩,
     ⟨"f", ⟨"a", none⟩, ⟨"b:out->c", none⟩⟩]

/-- The second edge is reported, though no end of it is an end of the first. -/
theorem duplicates_inexact_lookalike :
    (connectionIssues Graph.lookalike.nodes Graph.lookalike.edges).map
        (fun issue => (issue.code, issue.edgeId)) =
      [(.duplicateEdge, some "f")] ∧
    ¬ DuplicatesExact Graph.lookalike.nodes Graph.lookalike.edges := by
  refine ⟨by decide, fun h => ?_⟩
  have htold := duplicatesExact_iff.mp h
  have hends := htold ⟨"e", ⟨"a:out->b", none⟩, ⟨"c", none⟩⟩ (by decide)
    ⟨"f", ⟨"a", none⟩, ⟨"b:out->c", none⟩⟩ (by decide) (by decide)
  exact absurd hends (by decide)

end Flowgraph
