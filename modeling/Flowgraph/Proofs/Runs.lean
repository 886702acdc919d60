import Flowgraph.Proofs.Ids
import Flowgraph.Proofs.Turns

/-!
# Whole runs

A run whose nodes are all found is a row of turns between a begin and an end.
`IsRun` puts down what that means for everything the run leaves behind: its
steps are those of the turns, its statuses what the turns leave on top of a
table where all nodes are pending, its issues those of the turns.

A row either goes through to its end, or one turn ends it and all turns behind
that one are missed. `Unfolds.ends` reads this off a row, and all that is said
about the shape of runs begins with these two cases.
-/

namespace Flowgraph

variable {work : Work} {cancelled : Cancellation} {runId : String}
  {sofar : List RunStep} {turns : List (Node × Turn)} {status : RunStatus}

/-! ## Rows of turns -/

/-- The steps of a row of turns. -/
def rowSteps (runId : String) (turns : List (Node × Turn)) : List RunStep :=
  turns.flatMap fun turn => turn.2.steps runId turn.1

@[simp] theorem rowSteps_nil : rowSteps runId [] = [] := rfl

@[simp] theorem rowSteps_cons (turn : Node × Turn) (rest : List (Node × Turn)) :
    rowSteps runId (turn :: rest) =
      turn.2.steps runId turn.1 ++ rowSteps runId rest :=
  List.flatMap_cons

@[simp] theorem rowSteps_append (a b : List (Node × Turn)) :
    rowSteps runId (a ++ b) = rowSteps runId a ++ rowSteps runId b :=
  List.flatMap_append

/-- A turn behind which the run goes on. -/
inductive GoesOn (work : Work) : Node × Turn → Prop
  | passed {node : Node} (enabled : node.enabled = false) :
      GoesOn work (node, .passed)
  | succeeded {node : Node} (enabled : node.enabled = true)
      (result : work node = .ok ()) : GoesOn work (node, .succeeded)

/-- How a row of turns comes to its end. -/
inductive Ends (work : Work) (cancelled : Cancellation) (runId : String)
    (sofar : List RunStep) : List (Node × Turn) → RunStatus → Prop
  /-- Every turn goes on to the next one. -/
  | through {turns : List (Node × Turn)}
      (goesOn : ∀ turn ∈ turns, GoesOn work turn) :
      Ends work cancelled runId sofar turns .succeeded
  /-- One turn ends the run. -/
  | early (front : List (Node × Turn)) {node : Node} {turn : Turn}
      {rest : List Node} {status : RunStatus}
      (goesOn : ∀ turn ∈ front, GoesOn work turn)
      (takes : TakesTurn work cancelled runId
        (sofar ++ rowSteps runId front) node turn)
      (ends : turn.ending? = some status) :
      Ends work cancelled runId sofar
        (front ++ (node, turn) :: rest.map (·, .missed)) status

theorem TakesTurn.goesOn {node : Node} {turn : Turn}
    (h : TakesTurn work cancelled runId sofar node turn)
    (hgoes : turn.ending? = none) : GoesOn work (node, turn) := by
  cases h
  case passed enabled _ => exact .passed enabled
  case succeeded enabled _ result _ => exact .succeeded enabled result
  all_goals cases hgoes

theorem Unfolds.ends (h : Unfolds work cancelled runId sofar turns status) :
    Ends work cancelled runId sofar turns status := by
  induction h with
  | finished => exact .through (by simp)
  | stop takes ends =>
      exact .early [] (by simp) (by simpa using takes) ends
  | @next sofar node turn rest status takes goesOn _ ih =>
      have hgoes := takes.goesOn goesOn
      cases ih with
      | through hall =>
          exact .through (List.forall_mem_cons.mpr ⟨hgoes, hall⟩)
      | @early front stopper last left status hfront hlast hends =>
          rw [← List.cons_append]
          refine .early _ (List.forall_mem_cons.mpr ⟨hgoes, hfront⟩) ?_ hends
          rw [rowSteps_cons, ← List.append_assoc]
          exact hlast

/-! ## From the begin to the end -/

/-- What a run of the given nodes leaves behind, in terms of their turns. -/
structure IsRun (work : Work) (cancelled : Cancellation) (stamp : Stamp)
    (order : List Node) (turns : List (Node × Turn)) (outcome : Outcome) :
    Prop where
  nodes_eq : turns.map (·.1) = order
  id_eq : outcome.execution.id = stamp.id
  duration_eq : outcome.execution.durationMs = some stamp.durationMs
  unfolds : Unfolds work cancelled stamp.id
    [.event (.runStarted stamp.id (order.map (·.id)))] turns
    outcome.execution.status
  steps_eq : outcome.steps =
    .event (.runStarted stamp.id (order.map (·.id))) ::
      (rowSteps stamp.id turns ++ [.event
        (.runFinished stamp.id outcome.execution.status stamp.durationMs)])
  statuses_eq : outcome.statuses =
    (Table.ofList (order.map fun node => (node.id, .pending))).insertAll
      (turns.map fun turn => (turn.1.id, turn.2.status))
  issues_eq : outcome.issues = turns.flatMap fun turn => turn.2.issues turn.1

theorem IsRun.map_id {stamp : Stamp} {order : List Node} {outcome : Outcome}
    (h : IsRun work cancelled stamp order turns outcome) :
    turns.map (·.1.id) = order.map (·.id) := by
  rw [← h.nodes_eq, List.map_map]
  rfl

theorem foldl_take (p : Progress) : turns.foldl Progress.take p = {
    runId := p.runId
    steps := p.steps ++ rowSteps p.runId turns
    statuses := p.statuses.insertAll
      (turns.map fun turn => (turn.1.id, turn.2.status))
    issues := p.issues ++ turns.flatMap fun turn => turn.2.issues turn.1 } := by
  induction turns generalizing p with
  | nil => simp [Table.insertAll]
  | cons turn rest ih =>
      rw [List.foldl_cons, ih]
      simp [Progress.take, Table.insertAll_cons]

theorem isRun_outcome (work : Work) (cancelled : Cancellation) (stamp : Stamp)
    (order : List Node) : ∃ turns, IsRun work cancelled stamp order turns
      ((Course.of stamp.id order work cancelled).outcome stamp) := by
  obtain ⟨turns, hnodes, hunfolds, hsettle⟩ := unfold_runNodes work cancelled
    order (.start stamp.id (order.map (·.id)))
  rw [foldl_take] at hsettle
  have hsteps := congrArg Progress.steps hsettle
  have hstatuses := congrArg Progress.statuses hsettle
  have hissues := congrArg Progress.issues hsettle
  exact ⟨turns, {
    nodes_eq := hnodes
    id_eq := rfl
    duration_eq := rfl
    unfolds := hunfolds
    steps_eq := congrArg (· ++ [_]) hsteps
    statuses_eq := by
      refine hstatuses.trans ?_
      rw [Progress.start, List.map_map]
      rfl
    issues_eq := hissues }⟩

/-! ## From the plan to the run -/

variable {nodes : List Node} {order : List Node} {plan : Plan} {stamp : Stamp}
  {outcome : Outcome}

theorem resolve_cons (nodes : List Node) (id : String) (rest : List String) :
    resolve nodes (id :: rest) = match findNode? nodes id with
      | some node => (resolve nodes rest).map (node :: ·)
      | none => .error (.unknownNode id) := by
  simp only [resolve, List.mapM_cons]
  cases findNode? nodes id with
  | none => rfl
  | some node => rfl

/-- Ids are resolved to the nodes that are found for them. -/
theorem resolve_eq_ok {ids : List String} : resolve nodes ids = .ok order ↔
    order.map (·.id) = ids ∧
      ∀ node ∈ order, findNode? nodes node.id = some node := by
  induction ids generalizing order with
  | nil =>
      constructor
      · intro h
        cases h
        exact ⟨rfl, by simp⟩
      · intro ⟨hids, _⟩
        rw [List.map_eq_nil_iff.mp hids]
        rfl
  | cons id rest ih =>
      rw [resolve_cons]
      constructor
      · intro h
        cases hnode : findNode? nodes id with
        | none => rw [hnode] at h; cases h
        | some node =>
            rw [hnode] at h
            cases hrest : resolve nodes rest with
            | error fault => rw [hrest] at h; cases h
            | ok found =>
                rw [hrest] at h
                cases h
                obtain ⟨hids, hfound⟩ := ih.mp hrest
                have hname : node.id = id := findNode?_id hnode
                refine ⟨by rw [List.map_cons, hids, hname], ?_⟩
                exact List.forall_mem_cons.mpr ⟨by rw [hname, hnode], hfound⟩
      · intro ⟨hids, hfound⟩
        obtain ⟨node, found, rfl, rfl, hrest⟩ := List.map_eq_cons_iff.mp hids
        obtain ⟨hnode, hfound⟩ := List.forall_mem_cons.mp hfound
        rw [hnode, ih.mpr ⟨hrest, hfound⟩]
        rfl

theorem exists_resolve_eq_ok {ids : List String}
    (h : ∀ id ∈ ids, ∃ node ∈ nodes, node.id = id) :
    ∃ order, resolve nodes ids = .ok order := by
  induction ids with
  | nil => exact ⟨[], rfl⟩
  | cons id rest ih =>
      obtain ⟨hid, hrest⟩ := List.forall_mem_cons.mp h
      obtain ⟨node, hnode⟩ :=
        Option.isSome_iff_exists.mp (findNode?_isSome.mpr hid)
      obtain ⟨order, horder⟩ := ih hrest
      rw [resolve_cons, hnode, horder]
      exact ⟨node :: order, rfl⟩

theorem runPlan_eq_map : runPlan stamp nodes plan work cancelled =
    (resolve nodes plan.nodesInOrder).map fun order =>
      (Course.of stamp.id order work cancelled).outcome stamp := by
  rw [runPlan, Runner.run]
  cases resolve nodes plan.nodesInOrder <;> rfl

theorem runPlan_eq_ok :
    runPlan stamp nodes plan work cancelled = .ok outcome ↔
      ∃ order, resolve nodes plan.nodesInOrder = .ok order ∧
        (Course.of stamp.id order work cancelled).outcome stamp = outcome := by
  rw [runPlan_eq_map]
  cases resolve nodes plan.nodesInOrder <;> simp [Except.map]

/-- The plan of a report is run with the nodes of the graph. -/
theorem runReport_eq {graph : Graph} {report : Report}
    (h : report.plan = some plan) :
    runReport stamp graph report work cancelled =
      runPlan stamp graph.nodes plan work cancelled := by
  rw [runReport, Runner.runReport, h, runPlan]

theorem runReport_eq_error {graph : Graph} {report : Report}
    (h : report.plan = none) :
    runReport stamp graph report work cancelled =
      .error (.notRunnable report.errors) := by
  rw [runReport, Runner.runReport, h]
  rfl

/-- Where all nodes of a plan are found, the run gives a result. -/
theorem exists_runPlan_eq_ok
    (h : ∀ id ∈ plan.nodesInOrder, ∃ node ∈ nodes, node.id = id)
    (work : Work) (cancelled : Cancellation) (stamp : Stamp) :
    ∃ outcome, runPlan stamp nodes plan work cancelled = .ok outcome := by
  obtain ⟨order, horder⟩ := exists_resolve_eq_ok h
  exact ⟨_, runPlan_eq_ok.mpr ⟨order, horder, rfl⟩⟩

/-- A result of a plan is a run of the nodes that are found for its ids. -/
theorem isRun_of_runPlan
    (h : runPlan stamp nodes plan work cancelled = .ok outcome) :
    ∃ order turns, order.map (·.id) = plan.nodesInOrder ∧
      (∀ node ∈ order, findNode? nodes node.id = some node) ∧
      IsRun work cancelled stamp order turns outcome := by
  obtain ⟨order, hresolve, rfl⟩ := runPlan_eq_ok.mp h
  obtain ⟨hids, hfound⟩ := resolve_eq_ok.mp hresolve
  obtain ⟨turns, hrun⟩ := isRun_outcome work cancelled stamp order
  exact ⟨order, turns, hids, hfound, hrun⟩

end Flowgraph
