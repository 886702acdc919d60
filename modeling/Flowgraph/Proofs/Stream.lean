import Flowgraph.Proofs.PlanOrder
import Flowgraph.Proofs.Runs

/-!
# The event stream of a run

Whoever listens to a run learns of its nodes from the events alone. This module
says what there is to learn: every node has one of four histories, the nodes
have theirs one after another, and a failure is told once and right behind the
status that it explains.

The events of a turn are about its node only, and turns follow each other as
the nodes do. So the history of a node is the one its turn gives it, and
whatever prefix of the stream has been heard, only the node of the last turn in
it can be running: the turns in front of it are complete, and every turn ends
in a terminal status.
-/

namespace Flowgraph

variable {work : Work} {cancelled : Cancellation} {runId : String}
  {turns : List (Node × Turn)} {stamp : Stamp} {order : List Node}
  {outcome : Outcome}

/-! ## What events tell -/

namespace Event

/-- The node that an event is about. -/
def nodeId? : Event → Option String
  | nodeStatusChanged _ id _ => some id
  | nodeFailed _ id _ => some id
  | runStarted .. | runFinished .. => none

/-- The status that an event gives to a node. -/
def statusOf? (id : String) : Event → Option NodeStatus
  | nodeStatusChanged _ other status => if other = id then some status else none
  | _ => none

/-- Whether an event tells of a failure. -/
def isFailure : Event → Bool
  | nodeFailed .. => true
  | _ => false

end Event

/-- The statuses that events give to a node, in order. -/
def history (events : List Event) (id : String) : List NodeStatus :=
  events.filterMap (Event.statusOf? id)

/-- The status that a node has after events. -/
def standing (events : List Event) (id : String) : Option NodeStatus :=
  (history events id).getLast?

/-- All histories that a node of a run can have. -/
def histories : List (List NodeStatus) :=
  [[.skipped], [.running, .succeeded], [.running, .failed],
   [.running, .cancelled]]

theorem history_append (a b : List Event) (id : String) :
    history (a ++ b) id = history a id ++ history b id :=
  List.filterMap_append

theorem standing_append (a b : List Event) (id : String) :
    standing (a ++ b) id = (standing b id).or (standing a id) := by
  rw [standing, history_append, List.getLast?_append]
  rfl

/-! ## The events of turns -/

/-- The event that a step is. -/
def RunStep.event? : RunStep → Option Event
  | .event e => some e
  | _ => none

namespace Turn

/-- The history that a turn gives to its node. -/
def history : Turn → List NodeStatus
  | passed | halted | missed => [.skipped]
  | withdrawn | abandoned => [.running, .cancelled]
  | failed _ => [.running, .failed]
  | succeeded => [.running, .succeeded]

/-- What a turn tells beyond the history of its node. -/
def alarm (runId : String) (node : Node) : Turn → List Event
  | failed fault => [.nodeFailed runId node.id fault.message]
  | _ => []

/-- The events of a turn. -/
def events (runId : String) (node : Node) (turn : Turn) : List Event :=
  turn.history.map (.nodeStatusChanged runId node.id) ++
    turn.alarm runId node

theorem filterMap_event (runId : String) (node : Node) (turn : Turn) :
    (turn.steps runId node).filterMap RunStep.event? =
      turn.events runId node := by
  cases turn <;> rfl

theorem history_mem (turn : Turn) : turn.history ∈ histories := by
  cases turn <;> simp [history, histories]

theorem getLast?_history (turn : Turn) :
    turn.history.getLast? = some turn.status := by
  cases turn <;> rfl

/-- The events of a turn are about its node: they give it a status or tell that
its work failed. -/
theorem cases_of_mem_events {node : Node} {turn : Turn} {event : Event}
    (h : event ∈ turn.events runId node) :
    (∃ status, event = .nodeStatusChanged runId node.id status) ∨
      ∃ error, event = .nodeFailed runId node.id error := by
  rcases List.mem_append.mp h with h | h
  · obtain ⟨status, _, hevent⟩ := List.mem_map.mp h
    exact .inl ⟨status, hevent.symm⟩
  · cases turn with
    | failed fault => exact .inr ⟨fault.message, List.mem_singleton.mp h⟩
    | _ => cases h

theorem nodeId?_of_mem_events {node : Node} {turn : Turn} {event : Event}
    (h : event ∈ turn.events runId node) :
    event.nodeId? = some node.id := by
  rcases cases_of_mem_events h with ⟨status, rfl⟩ | ⟨error, rfl⟩
  · rfl
  · rfl

theorem runId_of_mem_events {node : Node} {turn : Turn} {event : Event}
    (h : event ∈ turn.events runId node) : event.runId = runId := by
  rcases cases_of_mem_events h with ⟨status, rfl⟩ | ⟨error, rfl⟩
  · rfl
  · rfl

theorem history_events (runId : String) (node : Node) (turn : Turn) :
    Flowgraph.history (turn.events runId node) node.id = turn.history := by
  cases turn <;>
    simp [events, history, alarm, Flowgraph.history, Event.statusOf?]

end Turn

/-- Events that are not about a node tell nothing of it. -/
theorem history_eq_nil {events : List Event} {id : String}
    (h : ∀ event ∈ events, event.nodeId? ≠ some id) :
    history events id = [] := by
  refine List.filterMap_eq_nil_iff.mpr fun event hevent => ?_
  have hne := h event hevent
  cases event with
  | nodeStatusChanged _ other status =>
      exact if_neg fun heq => hne (congrArg some heq)
  | _ => rfl

/-! ## Rows of turns -/

/-- The events of a row of turns. -/
def rowEvents (runId : String) (turns : List (Node × Turn)) : List Event :=
  turns.flatMap fun turn => turn.2.events runId turn.1

@[simp] theorem rowEvents_cons (turn : Node × Turn)
    (rest : List (Node × Turn)) : rowEvents runId (turn :: rest) =
      turn.2.events runId turn.1 ++ rowEvents runId rest :=
  List.flatMap_cons

@[simp] theorem rowEvents_append (a b : List (Node × Turn)) :
    rowEvents runId (a ++ b) = rowEvents runId a ++ rowEvents runId b :=
  List.flatMap_append

theorem filterMap_event (turns : List (Node × Turn)) :
    (rowSteps runId turns).filterMap RunStep.event? =
      rowEvents runId turns := by
  rw [rowSteps, List.filterMap_flatMap]
  simp only [Turn.filterMap_event]
  rfl

theorem mem_rowEvents {event : Event} : event ∈ rowEvents runId turns ↔
    ∃ turn ∈ turns, event ∈ turn.2.events runId turn.1 :=
  List.mem_flatMap

theorem history_rowEvents_of_not_mem {id : String}
    (h : id ∉ turns.map (·.1.id)) :
    history (rowEvents runId turns) id = [] := by
  refine history_eq_nil fun event hevent hid => h ?_
  obtain ⟨turn, hturn, hmem⟩ := mem_rowEvents.mp hevent
  rw [Turn.nodeId?_of_mem_events hmem] at hid
  exact List.mem_map.mpr ⟨turn, hturn, Option.some.inj hid⟩

/-- Where no node has two turns, a node has the history of its turn. -/
theorem history_rowEvents_of_mem (hnodup : (turns.map (·.1.id)).Nodup)
    {turn : Node × Turn} (h : turn ∈ turns) :
    history (rowEvents runId turns) turn.1.id = turn.2.history := by
  induction turns with
  | nil => cases h
  | cons head rest ih =>
      obtain ⟨hnew, hrest⟩ := List.nodup_cons.mp hnodup
      rw [rowEvents_cons, history_append]
      rcases List.mem_cons.mp h with rfl | h
      · rw [Turn.history_events, history_rowEvents_of_not_mem hnew,
          List.append_nil]
      · have hne : head.1.id ≠ turn.1.id := fun heq =>
          hnew (List.mem_map.mpr ⟨turn, h, heq.symm⟩)
        rw [ih hrest h, history_eq_nil fun event hevent hid => hne ?_,
          List.nil_append]
        rw [Turn.nodeId?_of_mem_events hevent] at hid
        exact Option.some.inj hid

/-! ## Running nodes -/

theorem standing_events_ne (node : Node) (turn : Turn) (id : String) :
    standing (turn.events runId node) id ≠ some .running := by
  rw [standing]
  by_cases hid : node.id = id
  · rw [← hid, Turn.history_events, Turn.getLast?_history]
    intro hrunning
    have hterminal := turn.isTerminal_status
    rw [Option.some.inj hrunning] at hterminal
    cases hterminal
  · rw [history_eq_nil]
    · intro hrunning
      cases hrunning
    · intro event hevent
      rw [Turn.nodeId?_of_mem_events hevent]
      exact fun heq => hid (Option.some.inj heq)

/-- No node is running behind complete turns. -/
theorem standing_rowEvents_ne (turns : List (Node × Turn)) (id : String) :
    standing (rowEvents runId turns) id ≠ some .running := by
  induction turns with
  | nil =>
      intro hrunning
      cases hrunning
  | cons turn rest ih =>
      rw [rowEvents_cons, standing_append]
      cases hrest : standing (rowEvents runId rest) id with
      | none => exact standing_events_ne turn.1 turn.2 id
      | some status => exact fun hrunning => ih (hrest.trans hrunning)

/-- What is heard of a row of turns are complete turns and events that are
about one node. -/
theorem exists_of_prefix_rowEvents {seen : List Event}
    (h : seen <+: rowEvents runId turns) :
    ∃ front part id, seen = rowEvents runId front ++ part ∧
      ∀ event ∈ part, event.nodeId? = some id := by
  induction turns generalizing seen with
  | nil => exact ⟨[], [], "", List.prefix_nil.mp h, by simp⟩
  | cons turn rest ih =>
      rw [rowEvents_cons] at h
      rcases List.prefix_or_prefix_of_prefix h (List.prefix_append _ _)
        with hpart | ⟨later, rfl⟩
      · exact ⟨[], seen, turn.1.id, rfl, fun event hevent =>
          Turn.nodeId?_of_mem_events (hpart.subset hevent)⟩
      · rw [List.prefix_append_right_inj] at h
        obtain ⟨front, part, id, rfl, hpart⟩ := ih h
        exact ⟨turn :: front, part, id,
          by rw [rowEvents_cons, List.append_assoc], hpart⟩

/-- Whatever has been heard of a row of turns, at most one node is running. -/
theorem eq_of_standing_running {seen : List Event}
    (h : seen <+: rowEvents runId turns) {a b : String}
    (ha : standing seen a = some .running)
    (hb : standing seen b = some .running) : a = b := by
  obtain ⟨front, part, id, rfl, hpart⟩ := exists_of_prefix_rowEvents h
  -- Only the turn that may still be under way leaves its node running.
  have hturn : ∀ other,
      standing (rowEvents runId front ++ part) other = some .running →
        other = id := by
    intro other hother
    by_contra hne
    have hsilent : standing part other = none := by
      rw [standing, history_eq_nil]
      · rfl
      · intro event hevent
        rw [hpart event hevent]
        exact fun heq => hne (Option.some.inj heq).symm
    rw [standing_append, hsilent] at hother
    exact standing_rowEvents_ne front other hother
  rw [hturn a ha, hturn b hb]

/-! ## One node after another -/

/-- If both events are about nodes, the node of the second is not in front of
that of the first. -/
def NotBehind (ids : List String) (a b : Event) : Prop :=
  ∀ u v, a.nodeId? = some u → b.nodeId? = some v → ids.idxOf u ≤ ids.idxOf v

theorem pairwise_rowEvents {ids : List String} (hnodup : ids.Nodup)
    (hids : turns.map (·.1.id) = ids) :
    (rowEvents runId turns).Pairwise (NotBehind ids) := by
  rw [rowEvents, List.pairwise_flatMap]
  constructor
  · intro turn hturn
    refine List.pairwise_of_forall_mem_list fun a ha b hb u v hu hv => ?_
    rw [Turn.nodeId?_of_mem_events ha] at hu
    rw [Turn.nodeId?_of_mem_events hb] at hv
    rw [← Option.some.inj hu, ← Option.some.inj hv]
  · have hplaces := pairwise_idxOf hnodup
    rw [← hids, List.pairwise_map, hids] at hplaces
    refine hplaces.imp fun hlt a ha b hb u v hu hv => ?_
    rw [Turn.nodeId?_of_mem_events ha] at hu
    rw [Turn.nodeId?_of_mem_events hb] at hv
    rw [← Option.some.inj hu, ← Option.some.inj hv]
    exact hlt.le

/-! ## Failures -/

/-- Events of which none tells of a failure. -/
def Quiet (events : List Event) : Prop :=
  ∀ event ∈ events, event.isFailure = false

theorem quiet_rowEvents
    (h : ∀ turn ∈ turns, turn.2.alarm runId turn.1 = []) :
    Quiet (rowEvents runId turns) := by
  intro event hevent
  obtain ⟨turn, hturn, hmem⟩ := mem_rowEvents.mp hevent
  rw [Turn.events, h turn hturn, List.append_nil] at hmem
  obtain ⟨status, _, rfl⟩ := List.mem_map.mp hmem
  rfl

theorem GoesOn.alarm_eq_nil {turn : Node × Turn} (h : GoesOn work turn) :
    turn.2.alarm runId turn.1 = [] := by
  cases h <;> rfl

/-- One turn of a row alarms if the run failed, and else none does. -/
theorem Ends.alarms {sofar : List RunStep} {status : RunStatus}
    (h : Ends work cancelled runId sofar turns status) :
    (status = .failed ∧ ∃ front node fault rest,
      turns = front ++ (node, .failed fault) :: rest ∧
        ∀ turn ∈ front ++ rest, turn.2.alarm runId turn.1 = []) ∨
      (status ≠ .failed ∧ ∀ turn ∈ turns, turn.2.alarm runId turn.1 = []) := by
  cases h with
  | through hgoes =>
      refine .inr ⟨by simp, fun turn hturn => ?_⟩
      exact (hgoes turn hturn).alarm_eq_nil
  | @early front node last rest status hgoes htakes hends =>
      have hrest : ∀ turn ∈ rest.map (·, Turn.missed),
          turn.2.alarm runId turn.1 = [] := by
        simp only [List.forall_mem_map]
        exact fun _ _ => rfl
      have hfront : ∀ turn ∈ front, turn.2.alarm runId turn.1 = [] :=
        fun turn hturn => (hgoes turn hturn).alarm_eq_nil
      -- The run failed just if the turn that ended it is a failed one.
      cases last with
      | failed fault =>
          cases hends
          exact .inl ⟨rfl, front, node, fault, _, rfl,
            List.forall_mem_append.mpr ⟨hfront, hrest⟩⟩
      | _ =>
          cases hends <;>
            exact .inr ⟨by simp, List.forall_mem_append.mpr
              ⟨hfront, List.forall_mem_cons.mpr ⟨rfl, hrest⟩⟩⟩

/-! ## The stream -/

/-- What the events of a run tell of the nodes with the given ids. -/
structure EventStream (ids : List String) (outcome : Outcome) : Prop where
  frame : ∃ body durationMs,
    outcome.events = .runStarted outcome.execution.id ids ::
      (body ++ [.runFinished outcome.execution.id outcome.execution.status
        durationMs]) ∧
    outcome.execution.durationMs = some durationMs ∧
    ∀ event ∈ body, ∃ id ∈ ids, event.nodeId? = some id
  runId : ∀ event ∈ outcome.events, event.runId = outcome.execution.id
  histories : ∀ id ∈ ids, history outcome.events id ∈ histories
  settles : ∀ id ∈ ids, ∃ earlier last,
    history outcome.events id = earlier ++ [last] ∧
      last.isTerminal = true ∧
      (∀ status ∈ earlier, status.isTerminal = false) ∧
      (.running ∈ earlier → last ≠ .skipped)
  ordered : outcome.events.Pairwise (NotBehind ids)
  alone : ∀ seen, seen <+: outcome.events → ∀ a b,
    standing seen a = some .running → standing seen b = some .running → a = b
  failed : outcome.execution.status = .failed → ∃ front id error back,
    outcome.events = front ++
      .nodeStatusChanged outcome.execution.id id .failed ::
      .nodeFailed outcome.execution.id id error :: back ∧
    Quiet (front ++ back)
  unfailed : outcome.execution.status ≠ .failed → Quiet outcome.events

/-- Every history ends with its one terminal status, and a node that was
running is not skipped. -/
theorem settles_of_mem_histories {statuses : List NodeStatus}
    (h : statuses ∈ histories) : ∃ earlier last,
      statuses = earlier ++ [last] ∧ last.isTerminal = true ∧
        (∀ status ∈ earlier, status.isTerminal = false) ∧
        (.running ∈ earlier → last ≠ .skipped) := by
  simp only [histories, List.mem_cons, List.not_mem_nil, or_false] at h
  rcases h with rfl | rfl | rfl | rfl
  · exact ⟨[], .skipped, rfl, rfl, by simp, by simp⟩
  · exact ⟨[.running], .succeeded, rfl, rfl, by simp; rfl, by simp⟩
  · exact ⟨[.running], .failed, rfl, rfl, by simp; rfl, by simp⟩
  · exact ⟨[.running], .cancelled, rfl, rfl, by simp; rfl, by simp⟩

namespace IsRun

theorem events_eq (h : IsRun work cancelled stamp order turns outcome) :
    outcome.events = .runStarted stamp.id (order.map (·.id)) ::
      (rowEvents stamp.id turns ++
        [.runFinished stamp.id outcome.execution.status
          stamp.durationMs]) := by
  have hevents : outcome.events = outcome.steps.filterMap RunStep.event? := rfl
  rw [hevents, h.steps_eq, ← filterMap_event]
  exact congrArg (_ :: ·) List.filterMap_append

/-- The begin and the end of the run tell nothing of a node. -/
theorem history_eq (h : IsRun work cancelled stamp order turns outcome)
    (id : String) :
    history outcome.events id = history (rowEvents stamp.id turns) id := by
  rw [h.events_eq]
  exact (history_append _ _ id).trans (List.append_nil _)

theorem history_mem (h : IsRun work cancelled stamp order turns outcome)
    (hnodup : (order.map (·.id)).Nodup) {id : String}
    (hid : id ∈ order.map (·.id)) :
    history outcome.events id ∈ histories := by
  rw [← h.map_id] at hnodup hid
  obtain ⟨turn, hturn, rfl⟩ := List.mem_map.mp hid
  rw [h.history_eq, history_rowEvents_of_mem hnodup hturn]
  exact turn.2.history_mem

theorem alone (h : IsRun work cancelled stamp order turns outcome)
    {seen : List Event} (hseen : seen <+: outcome.events) {a b : String}
    (ha : standing seen a = some .running)
    (hb : standing seen b = some .running) : a = b := by
  rw [h.events_eq, ← List.cons_append, List.prefix_concat_iff] at hseen
  -- Either all is heard, or the end of the run is not among what is heard.
  rcases hseen with rfl | hseen
  · rw [List.cons_append, ← h.events_eq, standing, h.history_eq] at ha
    exact absurd ha (standing_rowEvents_ne turns a)
  · rcases List.prefix_cons_iff.mp hseen with rfl | ⟨body, rfl, hbody⟩
    · cases ha
    · exact eq_of_standing_running hbody ha hb

theorem runId_eq (h : IsRun work cancelled stamp order turns outcome)
    {event : Event} (hevent : event ∈ outcome.events) :
    event.runId = stamp.id := by
  rw [h.events_eq, List.mem_cons, List.mem_append,
    List.mem_singleton] at hevent
  rcases hevent with rfl | hevent | rfl
  · rfl
  · obtain ⟨turn, _, hmem⟩ := mem_rowEvents.mp hevent
    exact Turn.runId_of_mem_events hmem
  · rfl

theorem ordered (h : IsRun work cancelled stamp order turns outcome)
    (hnodup : (order.map (·.id)).Nodup) :
    outcome.events.Pairwise (NotBehind (order.map (·.id))) := by
  rw [h.events_eq, List.pairwise_cons, List.pairwise_append]
  refine ⟨?_, pairwise_rowEvents hnodup h.map_id, List.pairwise_singleton _ _,
    ?_⟩
  · intro event _ u v hu
    cases hu
  · intro event _ last hlast u v _ hv
    rw [List.mem_singleton.mp hlast] at hv
    cases hv

/-- Telling of no failure is a matter of the turns. -/
theorem quiet_events (h : IsRun work cancelled stamp order turns outcome)
    (hquiet : ∀ turn ∈ turns, turn.2.alarm stamp.id turn.1 = []) :
    Quiet outcome.events := by
  rw [h.events_eq]
  refine List.forall_mem_cons.mpr ⟨rfl, List.forall_mem_append.mpr
    ⟨quiet_rowEvents hquiet, ?_⟩⟩
  exact List.forall_mem_singleton.mpr rfl

theorem failed (h : IsRun work cancelled stamp order turns outcome)
    {front rest : List (Node × Turn)} {node : Node} {fault : WorkFault}
    (hturns : turns = front ++ (node, .failed fault) :: rest)
    (hquiet : ∀ turn ∈ front ++ rest, turn.2.alarm stamp.id turn.1 = []) :
    ∃ front back, outcome.events = front ++
      .nodeStatusChanged stamp.id node.id .failed ::
      .nodeFailed stamp.id node.id fault.message :: back ∧
    Quiet (front ++ back) := by
  obtain ⟨hfront, hrest⟩ := List.forall_mem_append.mp hquiet
  have hevents := h.events_eq
  rw [hturns, rowEvents_append, rowEvents_cons] at hevents
  refine ⟨.runStarted stamp.id (order.map (·.id)) ::
      (rowEvents stamp.id front ++
        [.nodeStatusChanged stamp.id node.id .running]),
    rowEvents stamp.id rest ++ [.runFinished stamp.id
      outcome.execution.status stamp.durationMs], ?_, ?_⟩
  · rw [hevents]
    simp [Turn.events, Turn.history, Turn.alarm]
  · refine List.forall_mem_append.mpr ⟨?_, ?_⟩
    · refine List.forall_mem_cons.mpr ⟨rfl, List.forall_mem_append.mpr
        ⟨quiet_rowEvents hfront, List.forall_mem_singleton.mpr rfl⟩⟩
    · exact List.forall_mem_append.mpr
        ⟨quiet_rowEvents hrest, List.forall_mem_singleton.mpr rfl⟩

theorem eventStream (h : IsRun work cancelled stamp order turns outcome)
    (hnodup : (order.map (·.id)).Nodup) :
    EventStream (order.map (·.id)) outcome where
  frame := by
    refine ⟨_, _, by rw [h.id_eq]; exact h.events_eq, h.duration_eq, ?_⟩
    intro event hevent
    obtain ⟨turn, hturn, hmem⟩ := mem_rowEvents.mp hevent
    refine ⟨turn.1.id, ?_, Turn.nodeId?_of_mem_events hmem⟩
    rw [← h.map_id]
    exact List.mem_map.mpr ⟨turn, hturn, rfl⟩
  runId := fun _ hevent => (h.runId_eq hevent).trans h.id_eq.symm
  histories := fun _ hid => h.history_mem hnodup hid
  settles := fun _ hid => settles_of_mem_histories (h.history_mem hnodup hid)
  ordered := h.ordered hnodup
  alone := fun _ hseen _ _ => h.alone hseen
  failed := by
    intro hfailed
    rcases h.unfolds.ends.alarms with ⟨_, front, node, fault, rest, hturns,
      hquiet⟩ | ⟨hne, _⟩
    · obtain ⟨front, back, hevents⟩ := h.failed hturns hquiet
      rw [h.id_eq]
      exact ⟨front, node.id, fault.message, back, hevents⟩
    · exact absurd hfailed hne
  unfailed := by
    intro hne
    rcases h.unfolds.ends.alarms with ⟨hfailed, _⟩ | ⟨_, hquiet⟩
    · exact absurd hfailed hne
    · exact h.quiet_events hquiet

end IsRun

/-! ## Runs of plans -/

/-- Where a plan that validation handed out is run, with whatever nodes, the
events of the run are such a stream. -/
theorem run_has_event_stream {validated nodes : List Node}
    {edges : List Edge} {plan : Plan} {work : Work} {cancelled : Cancellation}
    {stamp : Stamp} {outcome : Outcome}
    (h : (validate validated edges).plan = some plan)
    (hrun : runPlan stamp nodes plan work cancelled = .ok outcome) :
    EventStream plan.nodesInOrder outcome := by
  obtain ⟨order, turns, hids, _, hisRun⟩ := isRun_of_runPlan hrun
  have hnodup : (order.map (·.id)).Nodup := hids ▸ nodesInOrder_nodup h
  exact hids ▸ hisRun.eventStream hnodup

/-- A run of the diamond in which its third node fails. -/
theorem run_has_event_stream_diamond : ∃ plan outcome,
    diamond.validate.plan = some plan ∧
      runPlan ⟨"run", .start, .start, 0⟩ diamond.nodes plan
        (Simulation.work { failNodes := ["left"] }) .never = .ok outcome ∧
      outcome.execution.status = .failed ∧
      plan.nodesInOrder.map (history outcome.events) =
        [[.running, .succeeded], [.running, .succeeded], [.running, .failed],
         [.skipped]] ∧
      EventStream plan.nodesInOrder outcome := by
  have hresult : ((diamond.validate.plan.map fun plan =>
      (runPlan ⟨"run", .start, .start, 0⟩ diamond.nodes plan
        (Simulation.work { failNodes := ["left"] }) .never).map fun outcome =>
          (outcome.execution.status,
            plan.nodesInOrder.map (history outcome.events)))) =
      some (.ok (.failed, [[.running, .succeeded], [.running, .succeeded],
        [.running, .failed], [.skipped]])) := by rfl
  obtain ⟨plan, hplan, hmap⟩ := Option.map_eq_some_iff.mp hresult
  cases hrun : runPlan ⟨"run", .start, .start, 0⟩ diamond.nodes plan
      (Simulation.work { failNodes := ["left"] }) .never with
  | error fault =>
      rw [hrun] at hmap
      cases hmap
  | ok outcome =>
      rw [hrun] at hmap
      obtain ⟨hstatus, hhistories⟩ := Prod.mk.inj (Except.ok.inj hmap)
      exact ⟨plan, outcome, hplan, hrun, hstatus, hhistories,
        run_has_event_stream hplan hrun⟩

end Flowgraph
