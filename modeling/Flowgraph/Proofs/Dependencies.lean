import Flowgraph.Proofs.Shape
import Flowgraph.Proofs.Stream

/-!
# Edges and the course of a run

An edge says that its target needs what its source gives. A plan puts the source
first, and a run goes past a node only when the node has succeeded or is
disabled; the first turn that ends otherwise is the last one that is not missed.
So wherever a node takes a turn at all, the turns in front of it have all gone
well, and the sources of its edges are among them.

`Unfolds.goesOn_front` says this of rows of turns. What has been heard when a
node starts to run is then everything that its predecessors have to tell, since
a node has only one turn.
-/

namespace Flowgraph

variable {work : Work} {cancelled : Cancellation} {runId : String}
  {turns front rest : List (Node × Turn)} {turn : Node × Turn} {stamp : Stamp}
  {order : List Node} {outcome : Outcome}

/-- The status of a node that a run has gone past. -/
def Node.settled (node : Node) : NodeStatus :=
  if node.enabled then .succeeded else .skipped

/-- What a run has gone past has ended. -/
theorem isTerminal_settled (node : Node) :
    node.settled.isTerminal = true := by
  rw [Node.settled]
  split <;> rfl

theorem GoesOn.status_eq (h : GoesOn work turn) :
    turn.2.status = turn.1.settled := by
  cases h with
  | passed enabled => simp [Node.settled, enabled, Turn.status]
  | succeeded enabled _ => simp [Node.settled, enabled, Turn.status]

/-- In front of a turn that is not missed the run has always gone on. -/
theorem Unfolds.goesOn_front {sofar : List RunStep} {status : RunStatus}
    (h : Unfolds work cancelled runId sofar (front ++ turn :: rest) status)
    (htaken : turn.2 ≠ .missed) : ∀ before ∈ front, GoesOn work before := by
  induction front generalizing sofar with
  | nil => exact fun _ hnil => absurd hnil List.not_mem_nil
  | cons first front ih =>
      rw [List.cons_append] at h
      generalize hrow : front ++ turn :: rest = row at h
      cases h with
      | next takes goesOn unfolds =>
          subst hrow
          exact List.forall_mem_cons.mpr ⟨takes.goesOn goesOn, ih unfolds⟩
      | @stop _ _ _ left _ _ _ =>
          have hmem : turn ∈ left.map (·, Turn.missed) :=
            hrow ▸ List.mem_append_right _ List.mem_cons_self
          obtain ⟨node, _, rfl⟩ := List.mem_map.mp hmem
          exact absurd rfl htaken

/-- A node is told to run in a turn of its own, and that turn is not missed. -/
theorem exists_turn_of_running {id : String}
    (h : .nodeStatusChanged runId id .running ∈ rowEvents runId turns) :
    ∃ turn ∈ turns, turn.1.id = id ∧ turn.2 ≠ .missed := by
  obtain ⟨⟨node, turn⟩, hturn, hmem⟩ := mem_rowEvents.mp h
  refine ⟨_, hturn, ?_, ?_⟩
  · exact Option.some.inj (Turn.nodeId?_of_mem_events hmem).symm
  · rintro rfl
    simp [Turn.events, Turn.history, Turn.alarm] at hmem

/-- Where an element does not occur in the front of a list, the front is passed
before the element is met. -/
theorem exists_eq_append_of_not_mem {α : Type} {a : α}
    {before after front back : List α} (hfront : a ∉ front)
    (h : before ++ a :: after = front ++ back) :
    ∃ part, before = front ++ part := by
  rcases List.append_eq_append_iff.mp h with
    ⟨part, rfl, hpart⟩ | ⟨part, hpart, _⟩
  · cases part with
    | nil => exact ⟨[], by simp⟩
    | cons head part =>
        obtain ⟨rfl, _⟩ := List.cons.inj hpart
        exact absurd (List.mem_append_right _ List.mem_cons_self) hfront
  · exact ⟨part, hpart⟩

namespace IsRun

/-- A node in front of the node of a turn has its turn in front of that turn. -/
theorem exists_front (h : IsRun work cancelled stamp order turns outcome)
    (hnodup : (order.map (·.id)).Nodup) {node : Node} (hnode : node ∈ order)
    (hturns : turns = front ++ turn :: rest)
    (hlt : (order.map (·.id)).idxOf node.id <
      (order.map (·.id)).idxOf turn.1.id) :
    ∃ past ∈ front, past.1 = node := by
  have hids : order.map (·.id) =
      front.map (·.1.id) ++ turn.1.id :: rest.map (·.1.id) := by
    rw [← h.map_id, hturns, List.map_append, List.map_cons]
  have hmem : node.id ∈ front.map (·.1.id) := by
    by_contra hno
    have hnew : turn.1.id ∉ front.map (·.1.id) :=
      not_mem_front_of_nodup (hids ▸ hnodup)
    rw [hids, List.idxOf_append_of_notMem hno,
      List.idxOf_append_of_notMem hnew, List.idxOf_cons_self] at hlt
    omega
  obtain ⟨past, hpast, hname⟩ := List.mem_map.mp hmem
  refine ⟨past, hpast, List.inj_on_of_nodup_map hnodup ?_ hnode hname⟩
  rw [← h.nodes_eq, hturns]
  exact List.mem_map_of_mem (List.mem_append_left _ hpast)

/-- The stream of a run, cut in front of the turn of a node. -/
theorem events_cut (h : IsRun work cancelled stamp order turns outcome)
    (hturns : turns = front ++ rest) : outcome.events =
      (.runStarted stamp.id (order.map (·.id)) :: rowEvents stamp.id front) ++
        (rowEvents stamp.id rest ++
          [.runFinished stamp.id outcome.execution.status
            stamp.durationMs]) := by
  rw [h.events_eq, hturns, rowEvents_append, List.append_assoc]
  rfl

/-- When the turns in front of one have been heard, everything is known of their
nodes that will ever be told. -/
theorem standing_of_heard
    (h : IsRun work cancelled stamp order turns outcome)
    (hnodup : (order.map (·.id)).Nodup) (hturns : turns = front ++ rest)
    {past : Node × Turn} (hpast : past ∈ front) {part after : List Event}
    (hevents : outcome.events = .runStarted stamp.id (order.map (·.id)) ::
      rowEvents stamp.id front ++ part ++ after) :
    standing (.runStarted stamp.id (order.map (·.id)) ::
      rowEvents stamp.id front ++ part) past.1.id = some past.2.status := by
  have hdistinct : (turns.map (·.1.id)).Nodup := h.map_id ▸ hnodup
  have hall : history outcome.events past.1.id = past.2.history := by
    rw [h.history_eq]
    exact history_rowEvents_of_mem hdistinct
      (hturns ▸ List.mem_append_left _ hpast)
  have hfront : history (.runStarted stamp.id (order.map (·.id)) ::
      rowEvents stamp.id front) past.1.id = past.2.history := by
    rw [hturns, List.map_append] at hdistinct
    exact history_rowEvents_of_mem hdistinct.of_append_left hpast
  rw [hevents, history_append, history_append, hfront, List.append_assoc,
    List.append_right_eq_self, List.append_eq_nil_iff] at hall
  rw [standing, history_append, hfront, hall.1, List.append_nil,
    Turn.getLast?_history]

/-- When a node starts to run, everything has been heard of the nodes in front
of it, and it went well. -/
theorem standing_of_running
    (h : IsRun work cancelled stamp order turns outcome)
    (hnodup : (order.map (·.id)).Nodup) {node : Node} (hnode : node ∈ order)
    {runId id : String} {before after : List Event}
    (hlt : (order.map (·.id)).idxOf node.id < (order.map (·.id)).idxOf id)
    (hevents : outcome.events =
      before ++ .nodeStatusChanged runId id .running :: after) :
    standing before node.id = some node.settled := by
  have hmem : .nodeStatusChanged runId id .running ∈ outcome.events := by
    rw [hevents]
    exact List.mem_append_right _ List.mem_cons_self
  obtain rfl : runId = stamp.id := h.runId_eq hmem
  have hrow : .nodeStatusChanged stamp.id id .running ∈
      rowEvents stamp.id turns := by
    rw [h.events_eq] at hmem
    simpa using hmem
  obtain ⟨turn, hturn, rfl, htaken⟩ := exists_turn_of_running hrow
  obtain ⟨front, rest, hturns⟩ := List.append_of_mem hturn
  obtain ⟨past, hpast, rfl⟩ := h.exists_front hnodup hnode hturns hlt
  have hgoes := (hturns ▸ h.unfolds).goesOn_front htaken past hpast
  -- What is told of the node is not among what the turns in front tell.
  have hnew : .nodeStatusChanged stamp.id turn.1.id .running ∉
      .runStarted stamp.id (order.map (·.id)) :: rowEvents stamp.id front := by
    have hdistinct : (turns.map (·.1.id)).Nodup := h.map_id ▸ hnodup
    rw [hturns, List.map_append, List.map_cons] at hdistinct
    rw [List.mem_cons, mem_rowEvents]
    rintro (heq | ⟨other, hother, hmem⟩)
    · cases heq
    · have hid := Option.some.inj (Turn.nodeId?_of_mem_events hmem)
      exact not_mem_front_of_nodup hdistinct
        (List.mem_map.mpr ⟨other, hother, hid.symm⟩)
  obtain ⟨part, rfl⟩ := exists_eq_append_of_not_mem hnew
    (hevents.symm.trans (h.events_cut hturns))
  rw [h.standing_of_heard hnodup hturns hpast hevents, hgoes.status_eq]

/-- A node that has more to show than being skipped stands behind nodes that are
settled. -/
theorem statusOf_of_taken
    (h : IsRun work cancelled stamp order turns outcome)
    (hnodup : (order.map (·.id)).Nodup) {node : Node} (hnode : node ∈ order)
    {id : String} {status : NodeStatus}
    (hlt : (order.map (·.id)).idxOf node.id < (order.map (·.id)).idxOf id)
    (hstatus : outcome.statusOf id = some status) (htaken : status ≠ .skipped) :
    outcome.statusOf node.id = some node.settled := by
  obtain ⟨_, turn, hturn, rfl, rfl⟩ := h.exists_turn hnodup hstatus
  have hmissed : turn ≠ .missed := by
    rintro rfl
    exact htaken rfl
  obtain ⟨front, rest, hturns⟩ := List.append_of_mem hturn
  obtain ⟨past, hpast, rfl⟩ := h.exists_front hnodup hnode hturns hlt
  have hgoes := (hturns ▸ h.unfolds).goesOn_front hmissed past hpast
  have hmem : past ∈ turns := hturns ▸ List.mem_append_left _ hpast
  rw [h.statusOf_eq hnodup hmem, hgoes.status_eq]

end IsRun

/-! ## From validation to the run -/

/-- A graph without errors is run, and its edges are kept to: where the target
of an edge starts to run, the source has been settled before, and a target that
has done more than being skipped leaves a settled source behind. -/
theorem run_keeps_to_edges {graph : Graph} (h : graph.validate.errors = 0)
    (work : Work) (cancelled : Cancellation) (stamp : Stamp) :
    ∃ outcome,
      runReport stamp graph graph.validate work cancelled = .ok outcome ∧
        ∀ edge ∈ graph.edges, ∃ source,
          graph.node? edge.source.nodeId = some source ∧
          (∀ runId before after,
            outcome.events = before ++ .nodeStatusChanged runId
              edge.target.nodeId .running :: after →
            standing before edge.source.nodeId =
              some (if source.enabled then .succeeded else .skipped)) ∧
          ∀ status, outcome.statusOf edge.target.nodeId = some status →
            status ∈ [.succeeded, .failed, .cancelled] →
            outcome.statusOf edge.source.nodeId =
              some (if source.enabled then .succeeded else .skipped) := by
  obtain ⟨plan, hplan⟩ := Option.isSome_iff_exists.mp (plan_isSome_iff.mpr h)
  have hfound : ∀ id ∈ plan.nodesInOrder, ∃ node ∈ graph.nodes, node.id = id :=
    fun id hid => List.mem_map.mp ((nodesInOrder_perm hplan).mem_iff.mp hid)
  obtain ⟨outcome, hrun⟩ := exists_runPlan_eq_ok hfound work cancelled stamp
  obtain ⟨order, turns, hids, hnodes, hisRun⟩ := isRun_of_runPlan hrun
  have hnodup : (order.map (·.id)).Nodup := hids ▸ nodesInOrder_nodup hplan
  refine ⟨outcome, ?_, fun edge hedge => ?_⟩
  · exact (runReport_eq hplan).trans hrun
  obtain ⟨htarget, hlt⟩ := idxOf_lt_of_joined hplan ⟨edge, hedge, rfl, rfl⟩
  have hsource : edge.source.nodeId ∈ order.map (·.id) := by
    rw [hids]
    exact List.idxOf_lt_length_iff.mp (hlt.trans_le List.idxOf_le_length)
  obtain ⟨source, hmem, hid⟩ := List.mem_map.mp hsource
  rw [← hids, ← hid] at hlt
  refine ⟨source, hid ▸ hnodes source hmem, ?_, ?_⟩
  · intro runId before after hevents
    rw [← hid]
    exact hisRun.standing_of_running hnodup hmem hlt hevents
  · intro status hstatus htaken
    rw [← hid]
    refine hisRun.statusOf_of_taken hnodup hmem hlt hstatus ?_
    rintro rfl
    simp at htaken

/-- The diamond with one of its branches disabled. -/
def halfDiamond : Graph :=
  { diamond with
    nodes := diamond.nodes.map fun node =>
      { node with enabled := node.id ≠ "right" } }

/-- A run of the half diamond in which the last node fails. When that node
starts to run, one of the sources of its edges has succeeded and the other is
skipped, and so they stay. -/
theorem run_keeps_to_edges_halfDiamond :
    halfDiamond.validate.errors = 0 ∧ ∃ outcome before after,
      runReport ⟨"run", .start, .start, 0⟩ halfDiamond halfDiamond.validate
          (Simulation.work { failNodes := ["join"] }) .never = .ok outcome ∧
        ["start", "left", "right", "join"].map outcome.statusOf =
          [some .succeeded, some .succeeded, some .skipped, some .failed] ∧
        outcome.events =
          before ++ .nodeStatusChanged "run" "join" .running :: after ∧
        standing before "left" = some .succeeded ∧
        standing before "right" = some .skipped ∧
        ∀ edge ∈ halfDiamond.edges, ∃ source,
          halfDiamond.node? edge.source.nodeId = some source ∧
          (∀ runId before after,
            outcome.events = before ++ .nodeStatusChanged runId
              edge.target.nodeId .running :: after →
            standing before edge.source.nodeId =
              some (if source.enabled then .succeeded else .skipped)) ∧
          ∀ status, outcome.statusOf edge.target.nodeId = some status →
            status ∈ [.succeeded, .failed, .cancelled] →
            outcome.statusOf edge.source.nodeId =
              some (if source.enabled then .succeeded else .skipped) := by
  have herrors : halfDiamond.validate.errors = 0 := by decide
  have hresult : (runReport ⟨"run", .start, .start, 0⟩ halfDiamond
      halfDiamond.validate (Simulation.work { failNodes := ["join"] })
      .never).map (fun outcome =>
        (["start", "left", "right", "join"].map outcome.statusOf,
          decide (.nodeStatusChanged "run" "join" .running ∈
            outcome.events))) =
      .ok ([some .succeeded, some .succeeded, some .skipped, some .failed],
        true) := by rfl
  obtain ⟨outcome, hrun, hedges⟩ := run_keeps_to_edges herrors
    (Simulation.work { failNodes := ["join"] }) .never
    ⟨"run", .start, .start, 0⟩
  rw [hrun] at hresult
  obtain ⟨hstatuses, hstarts⟩ := Prod.mk.inj (Except.ok.inj hresult)
  obtain ⟨before, after, hevents⟩ :=
    List.append_of_mem (of_decide_eq_true hstarts)
  obtain ⟨left, hleft, hleftStands, -⟩ :=
    hedges ⟨"e1", { nodeId := "left" }, { nodeId := "join" }⟩ (by decide)
  obtain ⟨right, hright, hrightStands, -⟩ :=
    hedges ⟨"e2", { nodeId := "right" }, { nodeId := "join" }⟩ (by decide)
  obtain rfl := Option.some.inj hleft
  obtain rfl := Option.some.inj hright
  exact ⟨herrors, outcome, before, after, hrun, hstatuses, hevents,
    hleftStands _ _ _ hevents, hrightStands _ _ _ hevents, hedges⟩

end Flowgraph
