import Flowgraph.Proofs.PlanOrder
import Flowgraph.Proofs.Relabeling
import Mathlib.Data.Set.Function

/-!
# Nodes under other ids

The ids of nodes are free text, and some of that text ends up in tables and in
the texts of connections. None of it has a meaning: a graph whose nodes get
other ids, different ones for different ones, has a plan if it had one before,
and that is the same plan under the new ids.

What is well-formed stays so, because `WellFormed` speaks of ids only by way of
their equality. For the other direction the renaming is undone: on the ids of
the graph it has an inverse, which leads from the renamed graph back to the
original one. The plan comes from the wiring, which is relabeled as a whole.
-/

namespace Flowgraph

/-! ## Renaming -/

/-- The node under another id. -/
def Node.rename (r : String → String) (node : Node) : Node :=
  { node with id := r node.id }

/-- The same side of an edge, with its node under another id. -/
def Endpoint.rename (r : String → String) (endpoint : Endpoint) : Endpoint :=
  { endpoint with nodeId := r endpoint.nodeId }

/-- The same edge between nodes under other ids. -/
def Edge.rename (r : String → String) (edge : Edge) : Edge :=
  { edge with source := edge.source.rename r, target := edge.target.rename r }

namespace Graph

/-- The same graph with its nodes under other ids. -/
def rename (r : String → String) (graph : Graph) : Graph :=
  ⟨graph.nodes.map (·.rename r), graph.edges.map (·.rename r)⟩

/-- The ids that nodes have and edges name. -/
def ids (graph : Graph) : Set String :=
  {id | (∃ node ∈ graph.nodes, node.id = id) ∨
    ∃ edge ∈ graph.edges, edge.source.nodeId = id ∨ edge.target.nodeId = id}

variable {graph : Graph} {node : Node} {edge : Edge} {r s : String → String}

theorem node_mem_ids (h : node ∈ graph.nodes) : node.id ∈ graph.ids :=
  .inl ⟨node, h, rfl⟩

theorem source_mem_ids (h : edge ∈ graph.edges) :
    edge.source.nodeId ∈ graph.ids :=
  .inr ⟨edge, h, .inl rfl⟩

theorem target_mem_ids (h : edge ∈ graph.edges) :
    edge.target.nodeId ∈ graph.ids :=
  .inr ⟨edge, h, .inr rfl⟩

/-! ## Undoing a renaming -/

theorem rename_rename (h : Set.LeftInvOn s r graph.ids) :
    (graph.rename r).rename s = graph := by
  have hnode : ∀ node ∈ graph.nodes, (node.rename r).rename s = node := by
    intro node hnode
    have hid := h (node_mem_ids hnode)
    simp only [Node.rename, hid]
  have hedge : ∀ edge ∈ graph.edges, (edge.rename r).rename s = edge := by
    intro edge hedge
    have hsource := h (source_mem_ids hedge)
    have htarget := h (target_mem_ids hedge)
    simp only [Edge.rename, Endpoint.rename, hsource, htarget]
  simp only [rename, List.map_map, Function.comp_def]
  rw [List.map_congr_left hnode, List.map_congr_left hedge, List.map_id',
    List.map_id']

theorem mem_ids_rename {id : String} (h : id ∈ (graph.rename r).ids) :
    ∃ old ∈ graph.ids, r old = id := by
  rcases h with ⟨_, hmem, rfl⟩ | ⟨_, hmem, hid⟩
  · obtain ⟨node, hnode, rfl⟩ := List.mem_map.mp hmem
    exact ⟨node.id, node_mem_ids hnode, rfl⟩
  · obtain ⟨edge, hedge, rfl⟩ := List.mem_map.mp hmem
    rcases hid with rfl | rfl
    · exact ⟨_, source_mem_ids hedge, rfl⟩
    · exact ⟨_, target_mem_ids hedge, rfl⟩

theorem leftInvOn_rename (h : Set.LeftInvOn s r graph.ids) :
    Set.LeftInvOn r s (graph.rename r).ids := by
  intro id hid
  obtain ⟨old, hold, rfl⟩ := mem_ids_rename hid
  rw [h hold]

end Graph

/-! ## Well-formed graphs -/

section

variable {graph : Graph} {node : Node} {edge : Edge} {r s : String → String}
  (h : Set.LeftInvOn s r graph.ids)
include h

/-- A renamed node feeds what it fed, under the new ids. -/
theorem card_fedBy_rename (hnode : node ∈ graph.nodes) (port : Port) :
    (fedBy (graph.rename r).edges (node.rename r) port).card ≤
      (fedBy graph.edges node port).card := by
  have hsub : fedBy (graph.rename r).edges (node.rename r) port ⊆
      (fedBy graph.edges node port).image (Prod.map r id) := by
    intro place hplace
    simp only [fedBy, Graph.rename, List.mem_toFinset, List.mem_map,
      List.mem_filter, decide_eq_true_eq] at hplace
    obtain ⟨_, ⟨⟨edge, hedge, rfl⟩, hsource, hport⟩, rfl⟩ := hplace
    have hsame : edge.source.nodeId = node.id :=
      h.injOn (Graph.source_mem_ids hedge) (Graph.node_mem_ids hnode) hsource
    refine Finset.mem_image.mpr
      ⟨(edge.target.nodeId, edge.targetPort), ?_, rfl⟩
    rw [fedBy, List.mem_toFinset]
    refine List.mem_map_of_mem (List.mem_filter.mpr ⟨hedge, ?_⟩)
    exact decide_eq_true ⟨hsame, hport⟩
  exact (Finset.card_le_card hsub).trans Finset.card_image_le

theorem Edge.Fits.rename (hedge : edge ∈ graph.edges)
    (hfits : edge.Fits graph.nodes) :
    (edge.rename r).Fits (graph.rename r).nodes := by
  obtain ⟨hne, source, hs, hsource, target, ht, htarget, hports⟩ := hfits
  refine ⟨fun heq => hne ?_, source.rename r, List.mem_map_of_mem hs,
    congrArg r hsource, target.rename r, List.mem_map_of_mem ht,
    congrArg r htarget, hports⟩
  exact h.injOn (Graph.source_mem_ids hedge) (Graph.target_mem_ids hedge) heq

/-- A path in the renamed graph leads back to one in the original. -/
theorem joined_of_rename {u v : String}
    (huv : Joined (graph.rename r).edges u v) :
    Joined graph.edges (s u) (s v) := by
  obtain ⟨_, hmem, rfl, rfl⟩ := huv
  obtain ⟨edge, hedge, rfl⟩ := List.mem_map.mp hmem
  exact ⟨edge, hedge, (h (Graph.source_mem_ids hedge)).symm,
    (h (Graph.target_mem_ids hedge)).symm⟩

theorem WellFormed.rename (hwf : WellFormed graph.nodes graph.edges) :
    WellFormed (graph.rename r).nodes (graph.rename r).edges where
  nonempty := by simpa [Graph.rename] using hwf.nonempty
  ids_distinct := by
    have hids : (graph.rename r).nodes.map (·.id) =
        (graph.nodes.map (·.id)).map r := by
      simp [Graph.rename, Node.rename, Function.comp_def]
    rw [hids]
    refine hwf.ids_distinct.map_on fun u hu v hv => ?_
    obtain ⟨node, hnode, rfl⟩ := List.mem_map.mp hu
    obtain ⟨node', hnode', rfl⟩ := List.mem_map.mp hv
    exact h.injOn (Graph.node_mem_ids hnode) (Graph.node_mem_ids hnode')
  fields_given := List.forall_mem_map.mpr hwf.fields_given
  temperature_within := List.forall_mem_map.mpr hwf.temperature_within
  edges_fit := List.forall_mem_map.mpr fun edge hedge =>
    (hwf.edges_fit edge hedge).rename h hedge
  inputs_fed := by
    refine List.forall_mem_map.mpr fun node hnode port hport hrequired => ?_
    obtain ⟨edge, hedge, htarget, hname⟩ :=
      hwf.inputs_fed node hnode port hport hrequired
    exact ⟨edge.rename r, List.mem_map_of_mem hedge, congrArg r htarget, hname⟩
  outputs_limited :=
    List.forall_mem_map.mpr fun node hnode port hport limit hlimit =>
      (card_fedBy_rename h hnode port).trans
        (hwf.outputs_limited node hnode port hport limit hlimit)
  acyclic id hcircle :=
    hwf.acyclic (s id) (hcircle.lift s fun _ _ => joined_of_rename h)

theorem plan_isSome_rename :
    (graph.rename r).validate.plan.isSome ↔ graph.validate.plan.isSome := by
  have haccepts (graph : Graph) : graph.validate.plan.isSome ↔
      WellFormed graph.nodes graph.edges :=
    plan_isSome_iff.trans errors_eq_zero_iff_wellFormed
  rw [haccepts, haccepts]
  refine ⟨fun hwf => ?_, fun hwf => hwf.rename h⟩
  have hback := hwf.rename (Graph.leftInvOn_rename h)
  rwa [Graph.rename_rename h] at hback

end

/-! ## The wiring -/

section

variable {graph : Graph} {r : String → String} (h : Set.InjOn r graph.ids)
include h

theorem nodeIds_rename :
    nodeIds (graph.rename r).nodes = (nodeIds graph.nodes).map r := by
  have hids : (graph.rename r).nodes.map (·.id) =
      (graph.nodes.map (·.id)).map r := by
    simp [Graph.rename, Node.rename, Function.comp_def]
  rw [nodeIds, hids, nodeIds]
  refine eraseDups_map fun u hu v hv => ?_
  obtain ⟨node, hnode, rfl⟩ := List.mem_map.mp hu
  obtain ⟨node', hnode', rfl⟩ := List.mem_map.mp hv
  exact h (Graph.node_mem_ids hnode) (Graph.node_mem_ids hnode')

theorem connecting_rename :
    connecting (graph.rename r).nodes (graph.rename r).edges =
      (connecting graph.nodes graph.edges).map (·.rename r) := by
  have hfound : ∀ id ∈ graph.ids,
      (findNode? (graph.rename r).nodes (r id)).isSome ↔
        (findNode? graph.nodes id).isSome := by
    intro id hid
    simp only [findNode?_isSome, Graph.rename, List.mem_map,
      exists_exists_and_eq_and]
    refine exists_congr fun node => and_congr_right fun hnode => ?_
    exact h.eq_iff (Graph.node_mem_ids hnode) hid
  rw [connecting, Graph.rename, List.filter_map]
  refine congrArg (List.map _) (List.filter_congr fun edge hedge => ?_)
  have hsource := Graph.source_mem_ids hedge
  have htarget := Graph.target_mem_ids hedge
  rw [Function.comp_apply, Bool.eq_iff_iff, connects_iff, connects_iff]
  exact and_congr (not_congr (h.eq_iff hsource htarget))
    (and_congr (hfound _ hsource) (hfound _ htarget))

theorem wiring_rename :
    wiring (graph.rename r).nodes (graph.rename r).edges =
      (wiring graph.nodes graph.edges).map r := by
  rw [wiring, nodeIds_rename h, connecting_rename h, wiring, Wiring.map]
  congr 1
  rw [← eraseDups_map, List.map_map, List.map_map]
  · rfl
  · intro a ha b hb heq
    obtain ⟨edge, hedge, rfl⟩ := List.mem_map.mp ha
    obtain ⟨edge', hedge', rfl⟩ := List.mem_map.mp hb
    have hmem := (mem_connecting.mp hedge).1
    have hmem' := (mem_connecting.mp hedge').1
    obtain ⟨hsource, htarget⟩ := Prod.mk.inj heq
    rw [h (Graph.source_mem_ids hmem) (Graph.source_mem_ids hmem') hsource,
      h (Graph.target_mem_ids hmem) (Graph.target_mem_ids hmem') htarget]

end

/-- A graph whose nodes get other ids, different ones for different ones, has a
plan if it had one before. That is the plan it had, with every id replaced in
its place. -/
theorem renaming_keeps_plan {graph : Graph} {r : String → String}
    (h : Set.InjOn r graph.ids) :
    ((graph.rename r).validate.plan.isSome ↔ graph.validate.plan.isSome) ∧
      ∀ plan, graph.validate.plan = some plan →
        ∃ plan', (graph.rename r).validate.plan = some plan' ∧
          plan'.nodesInOrder = plan.nodesInOrder.map r ∧
          plan'.startNodes = plan.startNodes.map r ∧
          plan'.unreachableNodes = plan.unreachableNodes.map r ∧
          plan'.adjacency.names.Perm (plan.adjacency.names.map r) ∧
          ∀ id next, plan.adjacency.find? id = some next →
            plan'.adjacency.find? (r id) = some (next.map r) := by
  have hiff := plan_isSome_rename h.leftInvOn_invFunOn
  refine ⟨hiff, fun plan hplan => ?_⟩
  obtain ⟨plan', hplan'⟩ := Option.isSome_iff_exists.mp
    (hiff.mpr (Option.isSome_of_eq_some hplan))
  have hread := readsOff_of_plan hplan
  have hread' := readsOff_of_plan hplan'
  have hsound := wiring_sound graph.nodes graph.edges
  have hsound' := wiring_sound (graph.rename r).nodes (graph.rename r).edges
  rw [wiring_rename h] at hread' hsound'
  have hinj : Set.InjOn r
      {v | v ∈ (wiring graph.nodes graph.edges).vertices} := by
    refine h.mono fun id hid => ?_
    obtain ⟨node, hnode, rfl⟩ := mem_nodeIds.mp hid
    exact Graph.node_mem_ids hnode
  refine ⟨plan', hplan', ?_, ?_, ?_, ?_, fun id next hnext => ?_⟩
  · rw [hread'.nodesInOrder_eq, hsound.order_map hinj, hread.nodesInOrder_eq]
  · rw [hread'.startNodes_eq, hsound.starts_map hinj, hread.startNodes_eq]
  · rw [hread'.unreachableNodes_eq, hsound.unreachable_map hinj,
      hread.unreachableNodes_eq]
  · exact (hread'.names_perm hsound').trans
      ((hread.names_perm hsound).map r).symm
  · rw [hread.find?_adjacency] at hnext
    split at hnext
    · next hid =>
        obtain rfl := Option.some.inj hnext
        have hid' : r id ∈
            ((wiring graph.nodes graph.edges).map r).vertices :=
          List.mem_map_of_mem hid
        rw [hread'.find?_adjacency, if_pos hid',
          hsound.successors_map hinj hid]
    · cases hnext

/-- Ids in which ports and arrows seem to be named. -/
theorem renaming_keeps_plan_diamond :
    let r (id : String) := "left:out->" ++ id ++ ":in"
    Set.InjOn r diamond.ids ∧ ∃ plan', (diamond.rename r).validate.plan =
      some plan' ∧ plan'.nodesInOrder = ["left:out->start:in",
        "left:out->right:in", "left:out->left:in", "left:out->join:in"] := by
  intro r
  have hinj : Set.InjOn r diamond.ids := by
    intro u _ v _ huv
    simpa [r] using huv
  have horder : diamond.validate.plan.map (·.nodesInOrder) =
      some ["start", "right", "left", "join"] := by decide
  obtain ⟨plan, hplan, hnodes⟩ := Option.map_eq_some_iff.mp horder
  obtain ⟨plan', hplan', hnodes', _⟩ :=
    (renaming_keeps_plan hinj).2 plan hplan
  refine ⟨hinj, plan', hplan', ?_⟩
  rw [hnodes', hnodes]
  rfl

end Flowgraph
