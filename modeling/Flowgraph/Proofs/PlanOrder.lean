import Flowgraph.Proofs.Table
import Flowgraph.Proofs.WellFormed

/-!
# The order of a plan

A plan that validation hands out belongs to a well-formed graph and is made from
its wiring. So what is known about the order of a wiring is known about the
plan, in terms of the graph itself: it names every node once and nothing else,
and every edge leads forward in it.
-/

namespace Flowgraph

variable {nodes : List Node} {edges : List Edge} {plan : Plan}

theorem Wiring.plan?_eq_some {w : Wiring String} :
    w.plan? = some plan ↔ w.hasCycle = false ∧ plan = {
      nodesInOrder := w.order
      adjacency := .ofList (w.vertices.map fun v => (v, w.successors v))
      startNodes := w.starts
      unreachableNodes := w.unreachable } := by
  rw [Wiring.plan?]
  split
  · next hcycle => simp [hcycle]
  · next hcycle =>
      rw [Bool.not_eq_true] at hcycle
      simp [hcycle, eq_comm]

/-- What stands behind a plan that is handed out. -/
theorem wellFormed_of_plan (h : (validate nodes edges).plan = some plan) :
    WellFormed nodes edges ∧ (wiring nodes edges).plan? = some plan := by
  have herrors : (validate nodes edges).errors = 0 :=
    plan_isSome_iff.mp (Option.isSome_iff_exists.mpr ⟨plan, h⟩)
  refine ⟨errors_eq_zero_iff_wellFormed.mp herrors, ?_⟩
  rw [← h]
  exact (if_pos herrors).symm

/-- A plan that is handed out is read off the wiring of its graph. -/
structure Plan.ReadsOff (plan : Plan) (w : Wiring String) : Prop where
  nodesInOrder_eq : plan.nodesInOrder = w.order
  startNodes_eq : plan.startNodes = w.starts
  unreachableNodes_eq : plan.unreachableNodes = w.unreachable
  find?_adjacency : ∀ id, plan.adjacency.find? id =
    if id ∈ w.vertices then some (w.successors id) else none

/-- The nodes of which a plan knows what they feed are the vertices. -/
theorem Plan.ReadsOff.names_perm {w : Wiring String} (h : plan.ReadsOff w)
    (hw : w.Sound) : plan.adjacency.names.Perm w.vertices := by
  refine (List.perm_ext_iff_of_nodup plan.adjacency.names_nodup
    hw.vertices_nodup).mpr fun id => ?_
  rw [Table.mem_names, h.find?_adjacency]
  by_cases hid : id ∈ w.vertices
  · simp [hid]
  · simp [hid]

theorem readsOff_of_plan (h : (validate nodes edges).plan = some plan) :
    plan.ReadsOff (wiring nodes edges) := by
  obtain ⟨_, rfl⟩ := Wiring.plan?_eq_some.mp (wellFormed_of_plan h).2
  exact {
    nodesInOrder_eq := rfl
    startNodes_eq := rfl
    unreachableNodes_eq := rfl
    find?_adjacency := Table.find?_ofList_map _ _ }

theorem nodesInOrder_perm (h : (validate nodes edges).plan = some plan) :
    plan.nodesInOrder.Perm (nodes.map (·.id)) := by
  obtain ⟨hwf, hplan⟩ := wellFormed_of_plan h
  obtain ⟨hcycle, rfl⟩ := Wiring.plan?_eq_some.mp hplan
  rw [← nodeIds_of_nodup hwf.ids_distinct]
  exact (wiring_sound nodes edges).order_perm hcycle

theorem nodesInOrder_ne_nil (h : (validate nodes edges).plan = some plan) :
    plan.nodesInOrder ≠ [] := by
  intro hnone
  have hids : nodes.map (·.id) = [] :=
    (hnone ▸ nodesInOrder_perm h).nil_eq.symm
  exact (wellFormed_of_plan h).1.nonempty (List.map_eq_nil_iff.mp hids)

theorem nodesInOrder_nodup (h : (validate nodes edges).plan = some plan) :
    plan.nodesInOrder.Nodup := by
  obtain ⟨_, rfl⟩ := Wiring.plan?_eq_some.mp (wellFormed_of_plan h).2
  exact (wiring_sound nodes edges).order_nodup

/-- Every edge of the graph leads forward in the order. -/
theorem idxOf_lt_of_joined (h : (validate nodes edges).plan = some plan)
    {u v : String} (huv : Joined edges u v) :
    v ∈ plan.nodesInOrder ∧
      plan.nodesInOrder.idxOf u < plan.nodesInOrder.idxOf v := by
  obtain ⟨hwf, hplan⟩ := wellFormed_of_plan h
  obtain ⟨hcycle, rfl⟩ := Wiring.plan?_eq_some.mp hplan
  have hsound := wiring_sound nodes edges
  rw [← feeds_wiring_eq_joined hwf.edges_fit] at huv
  have hv : v ∈ (wiring nodes edges).order :=
    (hsound.order_perm hcycle).mem_iff.mpr (hsound.target_mem huv)
  exact ⟨hv, hsound.idxOf_lt_of_feeds huv hv⟩

/-- The order of a plan is a permutation of the ids of the nodes, and the source
of every edge stands in it before the target. -/
theorem plan_orders_edges_forward
    (h : (validate nodes edges).plan = some plan) :
    plan.nodesInOrder.Perm (nodes.map (·.id)) ∧ plan.nodesInOrder.Nodup ∧
      ∀ edge ∈ edges, edge.target.nodeId ∈ plan.nodesInOrder ∧
        plan.nodesInOrder.idxOf edge.source.nodeId <
          plan.nodesInOrder.idxOf edge.target.nodeId :=
  ⟨nodesInOrder_perm h, nodesInOrder_nodup h, fun edge hedge =>
    idxOf_lt_of_joined h ⟨edge, hedge, rfl, rfl⟩⟩

/-- A graph listed against its order, in which two nodes are joined twice and
one of them is disabled. -/
def diamond : Graph where
  nodes := [
    { Node.new "join" (.text {}) with enabled := false },
    .new "left" (.text { text := "hello" }),
    .new "right" (.text {}),
    .new "start" .trigger]
  edges := [
    ⟨"e1", { nodeId := "left" }, { nodeId := "join" }⟩,
    ⟨"e2", { nodeId := "right" }, { nodeId := "join" }⟩,
    ⟨"e3", { nodeId := "start" }, { nodeId := "right" }⟩,
    ⟨"e4", { nodeId := "start" }, { nodeId := "left" }⟩,
    ⟨"e5", { nodeId := "start" }, ⟨"left", some "in"⟩⟩]

theorem plan_orders_edges_forward_diamond : ∃ plan,
    diamond.validate.plan = some plan ∧
      plan.nodesInOrder = ["start", "right", "left", "join"] ∧
      plan.nodesInOrder.Perm (diamond.nodes.map (·.id)) ∧
      plan.nodesInOrder.Nodup ∧
      ∀ edge ∈ diamond.edges, edge.target.nodeId ∈ plan.nodesInOrder ∧
        plan.nodesInOrder.idxOf edge.source.nodeId <
          plan.nodesInOrder.idxOf edge.target.nodeId := by
  have horder : diamond.validate.plan.map (·.nodesInOrder) =
      some ["start", "right", "left", "join"] := by decide
  obtain ⟨plan, hplan, hnodes⟩ := Option.map_eq_some_iff.mp horder
  exact ⟨plan, hplan, hnodes, plan_orders_edges_forward hplan⟩

end Flowgraph
