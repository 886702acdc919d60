import Flowgraph.Plan.Basic
import Flowgraph.Proofs.Distinct
import Flowgraph.Proofs.Wiring

/-!
# Ids and the nodes they stand for

Ids may repeat, and an id stands for the first node that has it. The checks and
the planner both look nodes up in this way, so what they mean by a node that
exists, and by an edge that connects two of them, is the same; it is put down
here once. The wiring of a graph joins exactly the ids that some connecting edge
joins, and it is sound whatever the graph looks like.
-/

namespace Flowgraph

variable {nodes : List Node} {edges : List Edge} {node : Node} {edge : Edge}
  {id u v : String}

/-! ## Looking nodes up -/

theorem mem_nodeIds : id ∈ nodeIds nodes ↔ ∃ node ∈ nodes, node.id = id := by
  simp [nodeIds, List.mem_eraseDups]

theorem nodeIds_nodup (nodes : List Node) : (nodeIds nodes).Nodup :=
  nodup_eraseDups _

theorem findNode?_isSome :
    (findNode? nodes id).isSome ↔ ∃ node ∈ nodes, node.id = id := by
  simp [findNode?]

theorem findNode?_eq_none :
    findNode? nodes id = none ↔ ∀ node ∈ nodes, node.id ≠ id := by
  simp [findNode?]

theorem findNode?_mem (h : findNode? nodes id = some node) : node ∈ nodes :=
  List.mem_of_find?_eq_some h

theorem findNode?_id (h : findNode? nodes id = some node) : node.id = id := by
  simpa using List.find?_some h

theorem mem_firstNodes :
    node ∈ firstNodes nodes ↔ findNode? nodes node.id = some node := by
  simp only [firstNodes, List.mem_filterMap]
  constructor
  · intro ⟨id, _, hfind⟩
    rw [findNode?_id hfind, hfind]
  · intro hfind
    exact ⟨node.id, mem_nodeIds.mpr ⟨node, findNode?_mem hfind, rfl⟩, hfind⟩

theorem map_id_firstNodes (nodes : List Node) :
    (firstNodes nodes).map (·.id) = nodeIds nodes := by
  have hfound : ∀ id ∈ nodeIds nodes,
      (findNode? nodes id).map (·.id) = some id := by
    intro id hid
    obtain ⟨node, hnode⟩ := Option.isSome_iff_exists.mp
      (findNode?_isSome.mpr (mem_nodeIds.mp hid))
    rw [hnode, Option.map_some, findNode?_id hnode]
  rw [firstNodes, List.map_filterMap, List.filterMap_congr hfound,
    List.filterMap_some]

/-- The first nodes of ids stand in the order of the places at which the ids
occur first. -/
theorem pairwise_firstNodes (nodes : List Node) :
    (firstNodes nodes).Pairwise fun a b =>
      (nodes.map (·.id)).idxOf a.id < (nodes.map (·.id)).idxOf b.id := by
  have hids := pairwise_idxOf_eraseDups (nodes.map (·.id))
  rwa [← nodeIds, ← map_id_firstNodes, List.pairwise_map] at hids

/-! Where ids do not repeat, every node is the one its id stands for. -/

theorem nodeIds_of_nodup (h : (nodes.map (·.id)).Nodup) :
    nodeIds nodes = nodes.map (·.id) :=
  eraseDups_eq_self h

theorem findNode?_of_nodup (h : (nodes.map (·.id)).Nodup) :
    findNode? nodes id = some node ↔ node ∈ nodes ∧ node.id = id :=
  find?_key_eq_some h

theorem mem_firstNodes_of_nodup (h : (nodes.map (·.id)).Nodup) :
    node ∈ firstNodes nodes ↔ node ∈ nodes := by
  rw [mem_firstNodes, findNode?_of_nodup h, and_iff_left rfl]

/-! ## Edges that connect -/

theorem isSelfLoop_iff :
    edge.isSelfLoop = true ↔ edge.source.nodeId = edge.target.nodeId := by
  simp [Edge.isSelfLoop]

theorem connects_iff : edge.connects nodes = true ↔
    edge.source.nodeId ≠ edge.target.nodeId ∧
      (findNode? nodes edge.source.nodeId).isSome ∧
      (findNode? nodes edge.target.nodeId).isSome := by
  simp [Edge.connects, Edge.isSelfLoop, and_assoc]

theorem mem_connecting : edge ∈ connecting nodes edges ↔
    edge ∈ edges ∧ edge.connects nodes = true :=
  List.mem_filter

theorem connecting_eq_of_find {nodes' : List Node}
    (h : findNode? nodes = findNode? nodes') (edges : List Edge) :
    connecting nodes edges = connecting nodes' edges := by
  simp only [connecting, Edge.connects, h]

theorem feeds_wiring : (wiring nodes edges).Feeds u v ↔
    ∃ edge ∈ connecting nodes edges,
      edge.source.nodeId = u ∧ edge.target.nodeId = v := by
  simp [Wiring.Feeds, wiring, List.mem_eraseDups]

theorem wiring_sound (nodes : List Node) (edges : List Edge) :
    (wiring nodes edges).Sound where
  vertices_nodup := nodeIds_nodup nodes
  links_nodup := nodup_eraseDups _
  source_mem h := by
    obtain ⟨edge, hedge, rfl, rfl⟩ := feeds_wiring.mp h
    have hsource := (connects_iff.mp (mem_connecting.mp hedge).2).2.1
    exact mem_nodeIds.mpr (findNode?_isSome.mp hsource)
  target_mem h := by
    obtain ⟨edge, hedge, rfl, rfl⟩ := feeds_wiring.mp h
    have htarget := (connects_iff.mp (mem_connecting.mp hedge).2).2.2
    exact mem_nodeIds.mpr (findNode?_isSome.mp htarget)
  ne h := by
    obtain ⟨edge, hedge, rfl, rfl⟩ := feeds_wiring.mp h
    exact (connects_iff.mp (mem_connecting.mp hedge).2).1

end Flowgraph
