import Flowgraph.Proofs.PlanOrder
import Mathlib.Algebra.Order.BigOperators.Group.Finset

/-!
# What planning and the checks mean by connected

Planning looks for vertices that no link leads to, the check of required inputs
for ports that no edge enters. Both leave out the same edges and take the same
node for an id, so a node from which planning starts has no input that an edge
enters, and if it requires one, that is reported.

In a graph that gets a plan nothing is reported. There every edge leaves an
output of its source and enters an input of its target, so the tables of ports
say where nodes can stand in a plan: without an input a node is a start, with a
required one it is none, and what a node feeds is bounded by its outputs and
their limits.
-/

namespace Flowgraph

variable {nodes : List Node} {edges : List Edge} {node : Node} {edge : Edge}
  {id : String} {port : Port} {plan : Plan}

/-! ## Starts and required inputs -/

/-- No edge that counts enters a node from which planning starts. -/
theorem enters_eq_false_of_mem_starts
    (hstart : node.id ∈ (wiring nodes edges).starts)
    (hedge : edge ∈ connecting nodes edges) (port : Port) :
    edge.enters node port = false := by
  have hfed := (Wiring.mem_starts.mp hstart).2 edge.source.nodeId
  rw [feeds_wiring] at hfed
  have hne : edge.target.nodeId ≠ node.id :=
    fun htarget => hfed ⟨edge, hedge, rfl, htarget⟩
  simp [Edge.enters, hne]

theorem missingInput_mem_inputIssues (hfirst : findNode? nodes id = some node)
    (hstart : id ∈ (wiring nodes edges).starts)
    (hport : port ∈ node.kind.inputs) (hrequired : port.required = true) :
    node.missingInput port ∈ inputIssues nodes edges := by
  obtain rfl := findNode?_id hfirst
  refine List.mem_flatMap.mpr ⟨node, mem_firstNodes.mpr hfirst, ?_⟩
  refine List.mem_map_of_mem (List.mem_filter.mpr ⟨hport, ?_⟩)
  rw [hrequired, Bool.true_and, Bool.not_eq_true', List.any_eq_false]
  intro edge hedge
  rw [enters_eq_false_of_mem_starts hstart hedge]
  exact Bool.false_ne_true

/-- The kinds that a node can have and be without an edge into it. -/
theorem kind_mem_of_inputs {kind : NodeKind}
    (h : ∀ port ∈ kind.inputs, port.required = false) :
    kind ∈ [.trigger, .text, .database] := by
  revert h
  cases kind <;> decide

/-! ## Outputs and links -/

namespace WellFormed

/-- A node that no edge can enter is a start. -/
theorem mem_starts (h : WellFormed nodes edges) (hnode : node ∈ nodes)
    (hinputs : node.kind.inputs = []) :
    node.id ∈ (wiring nodes edges).starts := by
  refine Wiring.mem_starts.mpr ⟨mem_nodeIds.mpr ⟨node, hnode, rfl⟩, ?_⟩
  intro source hfeeds
  rw [feeds_wiring_eq_joined h.edges_fit] at hfeeds
  obtain ⟨edge, hedge, _, htarget⟩ := hfeeds
  obtain ⟨_, _, _, _, target, hmem, hid, _, _, _, port, hport, _⟩ :=
    h.edges_fit edge hedge
  have heq : target = node :=
    List.inj_on_of_nodup_map h.ids_distinct hmem hnode (hid.trans htarget)
  rw [heq, hinputs] at hport
  exact List.not_mem_nil hport

/-- Whatever a node feeds it feeds by one of its outputs. -/
theorem exists_fedBy (h : WellFormed nodes edges) (hnode : node ∈ nodes)
    {target : String} (hfeeds : (wiring nodes edges).Feeds node.id target) :
    ∃ port ∈ node.kind.outputs,
      ∃ place ∈ fedBy edges node port, place.1 = target := by
  rw [feeds_wiring_eq_joined h.edges_fit] at hfeeds
  obtain ⟨edge, hedge, hsource, rfl⟩ := hfeeds
  obtain ⟨_, source, hmem, hid, _, _, _, port, hport, hname, _⟩ :=
    h.edges_fit edge hedge
  obtain rfl : source = node :=
    List.inj_on_of_nodup_map h.ids_distinct hmem hnode (hid.trans hsource)
  refine ⟨port, hport, (edge.target.nodeId, edge.targetPort), ?_, rfl⟩
  rw [fedBy, List.mem_toFinset]
  refine List.mem_map_of_mem (List.mem_filter.mpr ⟨hedge, ?_⟩)
  exact decide_eq_true ⟨hsource, hname.symm⟩

/-- A node whose outputs are limited feeds no more nodes than they allow. -/
theorem length_successors_le (h : WellFormed nodes edges)
    (hnode : node ∈ nodes) (limit : Nat)
    (hlimit : ∀ port ∈ node.kind.outputs, port.maxConnections = some limit) :
    ((wiring nodes edges).successors node.id).length ≤
      node.kind.outputs.length * limit := by
  let fed (port : Port) : Finset String :=
    (fedBy edges node port).image Prod.fst
  have hsub : ((wiring nodes edges).successors node.id).toFinset ⊆
      node.kind.outputs.toFinset.biUnion fed := by
    intro target htarget
    rw [List.mem_toFinset, Wiring.mem_successors] at htarget
    obtain ⟨port, hport, place, hplace, rfl⟩ := h.exists_fedBy hnode htarget
    exact Finset.mem_biUnion.mpr ⟨port, List.mem_toFinset.mpr hport,
      Finset.mem_image_of_mem _ hplace⟩
  have hfed : ∀ port ∈ node.kind.outputs.toFinset, (fed port).card ≤ limit := by
    intro port hport
    rw [List.mem_toFinset] at hport
    exact Finset.card_image_le.trans
      (h.outputs_limited node hnode port hport limit (hlimit port hport))
  rw [← List.toFinset_card_of_nodup
    ((wiring_sound nodes edges).successors_nodup node.id)]
  calc ((wiring nodes edges).successors node.id).toFinset.card
      ≤ (node.kind.outputs.toFinset.biUnion fed).card :=
        Finset.card_le_card hsub
    _ ≤ node.kind.outputs.toFinset.card * limit :=
        Finset.card_biUnion_le_card_mul _ _ _ hfed
    _ ≤ node.kind.outputs.length * limit :=
        Nat.mul_le_mul_right _ (List.toFinset_card_le _)

end WellFormed

/-! ## Plans -/

/-- A start whose node requires an input has it reported as missing. So in a
plan the kind of a node decides on its place: starts are triggers, texts and
databases, every trigger is a start, an output feeds nothing and a condition at
most two nodes. -/
theorem starts_lack_required_inputs (nodes : List Node) (edges : List Edge) :
    (∀ id ∈ (wiring nodes edges).starts, ∃ node,
      findNode? nodes id = some node ∧
      ∀ port ∈ node.kind.inputs, port.required = true →
        ∃ issue ∈ connectionIssues nodes edges,
          issue.code = .missingRequiredInput ∧ issue.isError = true ∧
          issue.nodeId = some id ∧
          issue.fieldPath = some s!"inputs.{port.id}") ∧
    ∀ plan, (validate nodes edges).plan = some plan →
      (∀ id ∈ plan.startNodes, ∃ node, findNode? nodes id = some node ∧
        node.kind ∈ [.trigger, .text, .database]) ∧
      ∀ node ∈ nodes,
        (node.kind = .trigger → node.id ∈ plan.startNodes) ∧
        (node.kind = .output → plan.adjacency.find? node.id = some []) ∧
        (node.kind = .condition → ∃ next,
          plan.adjacency.find? node.id = some next ∧ next.length ≤ 2) := by
  have hfound : ∀ id ∈ (wiring nodes edges).starts, ∃ node,
      findNode? nodes id = some node := fun id hstart =>
    Option.isSome_iff_exists.mp (findNode?_isSome.mpr
      (mem_nodeIds.mp (Wiring.mem_starts.mp hstart).1))
  refine ⟨fun id hstart => ?_, fun plan hplan => ⟨fun id hid => ?_, ?_⟩⟩
  · obtain ⟨node, hfirst⟩ := hfound id hstart
    refine ⟨node, hfirst, fun port hport hrequired => ?_⟩
    refine ⟨node.missingInput port, ?_, rfl, rfl, ?_, rfl⟩
    · exact List.mem_append_left _ (List.mem_append_right _
        (missingInput_mem_inputIssues hfirst hstart hport hrequired))
    · exact congrArg some (findNode?_id hfirst)
  · rw [(readsOff_of_plan hplan).startNodes_eq] at hid
    obtain ⟨node, hfirst⟩ := hfound id hid
    refine ⟨node, hfirst, kind_mem_of_inputs fun port hport => ?_⟩
    -- A required input would be reported, and then there would be no plan.
    have herrors := plan_isSome_iff.mp (Option.isSome_of_eq_some hplan)
    have hnone := (errors_eq_zero_iff.mp herrors).2.2.2.1
    by_contra hrequired
    have hissue := missingInput_mem_inputIssues hfirst hid hport
      (Bool.eq_true_of_not_eq_false hrequired)
    rw [hnone] at hissue
    exact List.not_mem_nil hissue
  · intro node hnode
    obtain ⟨hwf, _⟩ := wellFormed_of_plan hplan
    have hread := readsOff_of_plan hplan
    have hid : node.id ∈ (wiring nodes edges).vertices :=
      mem_nodeIds.mpr ⟨node, hnode, rfl⟩
    rw [hread.find?_adjacency, if_pos hid, hread.startNodes_eq]
    refine ⟨fun hkind => hwf.mem_starts hnode (by rw [hkind]; rfl), ?_, ?_⟩
    · intro hkind
      have hle := hwf.length_successors_le hnode 0
        (by rw [hkind]; exact fun _ hport => absurd hport List.not_mem_nil)
      rw [hkind] at hle
      exact congrArg some (List.length_eq_zero_iff.mp (Nat.le_zero.mp hle))
    · intro hkind
      have hle := hwf.length_successors_le hnode 1
        (by rw [hkind]; decide)
      rw [hkind] at hle
      exact ⟨_, rfl, hle⟩

/-- A trigger in front of a condition with an output on either branch. -/
def branches : Graph where
  nodes := [
    .new "begin" .trigger,
    .new "check" (.condition { expression := "x > 0" }),
    .new "yes" .output,
    .new "no" .output]
  edges := [
    ⟨"e1", { nodeId := "begin" }, { nodeId := "check" }⟩,
    ⟨"e2", ⟨"check", some "true"⟩, { nodeId := "yes" }⟩,
    ⟨"e3", ⟨"check", some "false"⟩, { nodeId := "no" }⟩]

/-- The branches as they are, and without their edges. -/
theorem starts_lack_required_inputs_branches :
    (∃ issue ∈ connectionIssues branches.nodes [],
      issue.code = .missingRequiredInput ∧ issue.isError = true ∧
      issue.nodeId = some "yes" ∧ issue.fieldPath = some "inputs.in") ∧
    ∃ plan, branches.validate.plan = some plan ∧
      plan.startNodes = ["begin"] ∧
      (∀ id ∈ plan.startNodes, ∃ node,
        findNode? branches.nodes id = some node ∧
        node.kind ∈ [.trigger, .text, .database]) ∧
      "begin" ∈ plan.startNodes ∧ plan.adjacency.find? "yes" = some [] ∧
      ∃ next, plan.adjacency.find? "check" = some next ∧ next.length ≤ 2 := by
  refine ⟨?_, ?_⟩
  · obtain ⟨hstarts, _⟩ := starts_lack_required_inputs branches.nodes []
    obtain ⟨node, hfirst, hinputs⟩ := hstarts "yes" (by decide)
    have hnode : Node.new "yes" .output = node :=
      Option.some.inj ((by rfl : findNode? branches.nodes "yes" =
        some (.new "yes" .output)).symm.trans hfirst)
    subst hnode
    exact hinputs (.input .any true) (by decide) rfl
  · have hresult : branches.validate.plan.map (·.startNodes) =
        some ["begin"] := by decide
    obtain ⟨plan, hplan, hstarts⟩ := Option.map_eq_some_iff.mp hresult
    obtain ⟨hkinds, hplaces⟩ := (starts_lack_required_inputs branches.nodes
      branches.edges).2 plan hplan
    exact ⟨plan, hplan, hstarts, hkinds,
      (hplaces (.new "begin" .trigger) (by decide)).1 rfl,
      (hplaces (.new "yes" .output) (by decide)).2.1 rfl,
      (hplaces (.new "check" (.condition { expression := "x > 0" }))
        (by decide)).2.2 rfl⟩

end Flowgraph
