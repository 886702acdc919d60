import Flowgraph.Proofs.PlanOrder
import Flowgraph.Proofs.Runs

/-!
# The shape of a run

A run has one of three ends: it takes every node, or one node fails, or a look
at one node sees the cancellation. Everything it leaves behind is known from
the place in the order where it ended. In front of that place the enabled nodes
have succeeded and the disabled ones are skipped, behind it all are skipped,
and work was done in front of it and at most at the place itself.

The statuses are read off the row of turns. No id stands twice in the order of
a plan, so nothing that a later turn writes hides the status of an earlier one.
-/

namespace Flowgraph

variable {work : Work} {cancelled : Cancellation} {runId : String}
  {turns : List (Node × Turn)} {stamp : Stamp} {order : List Node}
  {outcome : Outcome}

/-! ## Looks

A run asks for the cancellation and for nothing else, so what it does depends
on the answers alone. They are the true ones. -/

/-- Every look among the steps that follow others has the true answer. -/
def Truthful (cancelled : Cancellation) : List RunStep → List RunStep → Prop
  | _, [] => True
  | sofar, .look answer :: rest =>
    cancelled sofar = answer ∧
      Truthful cancelled (sofar ++ [.look answer]) rest
  | sofar, step :: rest => Truthful cancelled (sofar ++ [step]) rest

theorem truthful_append {sofar a b : List RunStep} :
    Truthful cancelled sofar (a ++ b) ↔
      Truthful cancelled sofar a ∧ Truthful cancelled (sofar ++ a) b := by
  induction a generalizing sofar with
  | nil => simp [Truthful]
  | cons step rest ih => cases step <;> simp [Truthful, ih, and_assoc]

theorem Truthful.eq_of_look {sofar before after : List RunStep}
    {answer : Bool}
    (h : Truthful cancelled sofar (before ++ .look answer :: after)) :
    cancelled (sofar ++ before) = answer :=
  (truthful_append.mp h).2.1

theorem TakesTurn.truthful {sofar : List RunStep} {node : Node} {turn : Turn}
    (h : TakesTurn work cancelled runId sofar node turn) :
    Truthful cancelled sofar (turn.steps runId node) := by
  cases h <;> simp_all [Turn.steps, Turn.change, Truthful]

theorem truthful_missed (sofar : List RunStep) (rest : List Node) :
    Truthful cancelled sofar (rowSteps runId (rest.map (·, .missed))) := by
  induction rest generalizing sofar with
  | nil => trivial
  | cons node rest ih => exact ih _

theorem Unfolds.truthful {sofar : List RunStep} {status : RunStatus}
    (h : Unfolds work cancelled runId sofar turns status) :
    Truthful cancelled sofar (rowSteps runId turns) := by
  induction h with
  | finished => trivial
  | next takes _ _ ih =>
      rw [rowSteps_cons, truthful_append]
      exact ⟨takes.truthful, ih⟩
  | stop takes _ =>
      rw [rowSteps_cons, truthful_append]
      exact ⟨takes.truthful, truthful_missed _ _⟩

theorem IsRun.truthful (h : IsRun work cancelled stamp order turns outcome) :
    Truthful cancelled [] outcome.steps := by
  rw [h.steps_eq]
  exact truthful_append.mpr ⟨h.unfolds.truthful, trivial⟩

theorem IsRun.eq_of_look
    (h : IsRun work cancelled stamp order turns outcome)
    {before after : List RunStep} {answer : Bool}
    (hsteps : outcome.steps = before ++ .look answer :: after) :
    cancelled before = answer :=
  (hsteps ▸ h.truthful).eq_of_look

theorem not_mem_rowSteps_of_goesOn (h : ∀ turn ∈ turns, GoesOn work turn) :
    .look true ∉ rowSteps runId turns := by
  rw [rowSteps, List.mem_flatMap]
  intro ⟨turn, hturn, hlook⟩
  cases h turn hturn <;> simp [Turn.steps, Turn.change] at hlook

theorem not_mem_rowSteps_missed (rest : List Node) :
    .look true ∉ rowSteps runId (rest.map (·, .missed)) := by
  simp [rowSteps, Turn.steps, Turn.change]

/-! ## What is done and what is left -/

/-- The node whose work a step is. -/
def RunStep.work? : RunStep → Option String
  | .work id => some id
  | _ => none

/-- The node that has its last status by a step. -/
def RunStep.settled? : RunStep → Option String
  | .event (.nodeStatusChanged _ id status) =>
    if status.isTerminal then some id else none
  | _ => none

/-- The ids of the enabled ones among nodes. -/
def enabledIds (nodes : List Node) : List String :=
  (nodes.filter (·.enabled)).map (·.id)

/-- Whether the work of the node is done in a turn. -/
def Turn.works : Turn → Bool
  | failed _ | abandoned | succeeded => true
  | passed | halted | withdrawn | missed => false

theorem filterMap_work (turns : List (Node × Turn)) :
    (rowSteps runId turns).filterMap RunStep.work? =
      (turns.filter (·.2.works)).map (·.1.id) := by
  induction turns with
  | nil => rfl
  | cons turn rest ih =>
      rw [rowSteps_cons, List.filterMap_append, ih]
      rcases turn with ⟨node, _ | _ | _ | _ | _ | _ | _⟩ <;> rfl

theorem GoesOn.works_eq {turn : Node × Turn} (h : GoesOn work turn) :
    turn.2.works = turn.1.enabled := by
  cases h with
  | passed enabled => exact enabled.symm
  | succeeded enabled _ => exact enabled.symm

theorem filter_works_of_goesOn (h : ∀ turn ∈ turns, GoesOn work turn) :
    (turns.filter (·.2.works)).map (·.1.id) =
      enabledIds (turns.map (·.1)) := by
  rw [List.filter_congr fun turn hturn => (h turn hturn).works_eq, enabledIds,
    List.filter_map, List.map_map]
  rfl

theorem filter_works_missed (rest : List Node) :
    (rest.map (·, Turn.missed)).filter (·.2.works) = [] := by
  rw [List.filter_map]
  simp [Function.comp_def, Turn.works]

theorem filterMap_settled (turns : List (Node × Turn)) :
    (rowSteps runId turns).filterMap RunStep.settled? =
      turns.map (·.1.id) := by
  induction turns with
  | nil => rfl
  | cons turn rest ih =>
      rw [rowSteps_cons, List.filterMap_append, ih, List.map_cons]
      rcases turn with ⟨node, _ | _ | _ | _ | _ | _ | _⟩ <;> rfl

namespace IsRun

theorem performed_eq (h : IsRun work cancelled stamp order turns outcome) :
    outcome.performed =
      (rowSteps stamp.id turns).filterMap RunStep.work? := by
  have hwork : outcome.performed = outcome.steps.filterMap RunStep.work? := rfl
  rw [hwork, h.steps_eq, List.filterMap_cons_none rfl, List.filterMap_append]
  exact List.append_nil _

/-- Every node has the status that its turn left. -/
theorem statusOf_eq (h : IsRun work cancelled stamp order turns outcome)
    (hnodup : (order.map (·.id)).Nodup) {node : Node} {turn : Turn}
    (hturn : (node, turn) ∈ turns) :
    outcome.statusOf node.id = some turn.status := by
  rw [Outcome.statusOf, h.statuses_eq]
  refine Table.find?_insertAll_of_mem ?_ ?_ _
  · rw [List.map_map]
    exact h.map_id ▸ hnodup
  · exact List.mem_map.mpr ⟨_, hturn, rfl⟩

/-- The nodes of the run are those that have a status. -/
theorem names_perm (h : IsRun work cancelled stamp order turns outcome)
    (hnodup : (order.map (·.id)).Nodup) :
    outcome.statuses.names.Perm (order.map (·.id)) := by
  refine (List.perm_ext_iff_of_nodup (Table.names_nodup _) hnodup).mpr ?_
  intro id
  rw [h.statuses_eq, Table.mem_names_insertAll, Table.mem_names_ofList,
    List.map_map, List.map_map]
  change id ∈ turns.map (·.1.id) ∨ id ∈ order.map (·.id) ↔ _
  rw [h.map_id, or_self]

/-- A status that is known of a node has been left by its turn. -/
theorem exists_turn (h : IsRun work cancelled stamp order turns outcome)
    (hnodup : (order.map (·.id)).Nodup) {id : String} {status : NodeStatus}
    (hstatus : outcome.statusOf id = some status) :
    ∃ node turn, (node, turn) ∈ turns ∧ node.id = id ∧
      turn.status = status := by
  have hid : id ∈ order.map (·.id) := by
    refine (h.names_perm hnodup).mem_iff.mp (Table.mem_names.mpr ?_)
    exact Option.isSome_of_eq_some hstatus
  rw [← h.map_id] at hid
  obtain ⟨⟨node, turn⟩, hturn, rfl⟩ := List.mem_map.mp hid
  rw [h.statusOf_eq hnodup hturn] at hstatus
  exact ⟨node, turn, hturn, rfl, Option.some.inj hstatus⟩

end IsRun

/-! ## The shape -/

/-- What a run leaves of a node that it went past. -/
def WentPast (work : Work) (outcome : Outcome) (node : Node) : Prop :=
  if node.enabled then
    work node = .ok () ∧ outcome.statusOf node.id = some .succeeded
  else outcome.statusOf node.id = some .skipped

/-- The first look that saw the cancellation was made when the given nodes, and
no others, had their last status, and no work was done behind it. -/
def SeesCancellation (cancelled : Cancellation) (outcome : Outcome)
    (past : List Node) : Prop :=
  ∃ before after, outcome.steps = before ++ .look true :: after ∧
    .look true ∉ before ∧ cancelled before = true ∧
    before.filterMap RunStep.settled? = past.map (·.id) ∧
    after.filterMap RunStep.work? = []

/-- The three ends of a run, at a place of its order. -/
inductive EndsAt (work : Work) (cancelled : Cancellation) (order : List Node)
    (outcome : Outcome) (i : Nat) : Prop
  | finished (atEnd : i = order.length)
      (unseen : .look true ∉ outcome.steps)
      (status : outcome.execution.status = .succeeded)
      (issues : outcome.issues = [])
      (performed : outcome.performed = enabledIds order)
  | failed {node : Node} {fault : WorkFault} (here : order[i]? = some node)
      (unseen : .look true ∉ outcome.steps)
      (enabled : node.enabled = true) (result : work node = .error fault)
      (left : outcome.statusOf node.id = some .failed)
      (status : outcome.execution.status = .failed)
      (issues : outcome.issues = [{
        Issue.error .runtime .nodeFailed fault.message with
        nodeId := some node.id }])
      (performed : outcome.performed =
        enabledIds (order.take i) ++ [node.id])
  | cancelled {node : Node} (here : order[i]? = some node)
      (seen : SeesCancellation cancelled outcome (order.take i))
      (left : outcome.statusOf node.id =
        some (if node.enabled then .cancelled else .skipped))
      (status : outcome.execution.status = .cancelled)
      (issues : outcome.issues = [])
      (performed : outcome.performed = enabledIds (order.take i) ∨
        node.enabled = true ∧ work node = .ok () ∧
          outcome.performed = enabledIds (order.take i) ++ [node.id])

/-- What is known of a run that came to its end at a place of its order. -/
structure Shape (work : Work) (cancelled : Cancellation) (order : List Node)
    (outcome : Outcome) (i : Nat) : Prop where
  past : ∀ node ∈ order.take i, WentPast work outcome node
  ends : EndsAt work cancelled order outcome i
  behind : ∀ node ∈ order.drop (i + 1),
    outcome.statusOf node.id = some .skipped
  looks : ∀ before answer after,
    outcome.steps = before ++ .look answer :: after →
      cancelled before = answer
  names : outcome.statuses.names.Perm (order.map (·.id))
  terminal : ∀ id status, outcome.statusOf id = some status →
    status.isTerminal = true

theorem issues_of_goesOn (h : ∀ turn ∈ turns, GoesOn work turn) :
    (turns.flatMap fun turn => turn.2.issues turn.1) = [] := by
  refine List.flatMap_eq_nil_iff.mpr fun turn hturn => ?_
  cases h turn hturn <;> rfl

theorem issues_missed (rest : List Node) :
    ((rest.map (·, Turn.missed)).flatMap fun turn => turn.2.issues turn.1) =
      [] := by
  simp [List.flatMap_map, Turn.issues]

namespace IsRun

theorem wentPast (h : IsRun work cancelled stamp order turns outcome)
    (hnodup : (order.map (·.id)).Nodup) {turn : Node × Turn}
    (hturn : turn ∈ turns) (hgoes : GoesOn work turn) :
    WentPast work outcome turn.1 := by
  have hstatus := h.statusOf_eq hnodup hturn
  rw [WentPast]
  cases hgoes with
  | passed enabled => simpa [enabled, Turn.status] using hstatus
  | succeeded enabled result =>
      simpa [enabled, result, Turn.status] using hstatus

theorem terminal (h : IsRun work cancelled stamp order turns outcome)
    (hnodup : (order.map (·.id)).Nodup) {id : String} {status : NodeStatus}
    (hstatus : outcome.statusOf id = some status) :
    status.isTerminal = true := by
  obtain ⟨_, turn, _, _, rfl⟩ := h.exists_turn hnodup hstatus
  exact turn.isTerminal_status

theorem finished (h : IsRun work cancelled stamp order turns outcome)
    (hgoes : ∀ turn ∈ turns, GoesOn work turn)
    (hstatus : outcome.execution.status = .succeeded) :
    EndsAt work cancelled order outcome order.length := by
  refine .finished rfl ?_ hstatus ?_ ?_
  · rw [h.steps_eq]
    simpa using not_mem_rowSteps_of_goesOn hgoes
  · rw [h.issues_eq, issues_of_goesOn hgoes]
  · rw [h.performed_eq, filterMap_work, filter_works_of_goesOn hgoes,
      h.nodes_eq]

end IsRun

/-- A run that one turn ends: the turns in front of it, its own node, and the
nodes behind it. -/
structure Stopped (work : Work) (cancelled : Cancellation) (stamp : Stamp)
    (front : List (Node × Turn)) (node : Node) (turn : Turn) (rest : List Node)
    (outcome : Outcome) : Prop where
  isRun : IsRun work cancelled stamp (front.map (·.1) ++ node :: rest)
    (front ++ (node, turn) :: rest.map (·, .missed)) outcome
  nodup : ((front.map (·.1) ++ node :: rest).map (·.id)).Nodup
  goesOn : ∀ turn ∈ front, GoesOn work turn
  takes : ∃ sofar, TakesTurn work cancelled stamp.id sofar node turn
  ends : turn.ending? = some outcome.execution.status

namespace Stopped

variable {front : List (Node × Turn)} {node : Node} {turn : Turn}
  {rest : List Node}

theorem take_eq (front : List (Node × Turn)) (node : Node)
    (rest : List Node) :
    (front.map (·.1) ++ node :: rest).take front.length =
      front.map (·.1) :=
  List.take_left' (List.length_map _)

theorem here (front : List (Node × Turn)) (node : Node) (rest : List Node) :
    (front.map (·.1) ++ node :: rest)[front.length]? = some node := by
  simp

theorem drop_eq (front : List (Node × Turn)) (node : Node)
    (rest : List Node) :
    (front.map (·.1) ++ node :: rest).drop (front.length + 1) = rest := by
  simp [List.drop_append]

theorem issues_eq
    (h : Stopped work cancelled stamp front node turn rest outcome) :
    outcome.issues = turn.issues node := by
  rw [h.isRun.issues_eq, List.flatMap_append, issues_of_goesOn h.goesOn,
    List.flatMap_cons, issues_missed, List.append_nil, List.nil_append]

theorem performed_eq
    (h : Stopped work cancelled stamp front node turn rest outcome) :
    outcome.performed = enabledIds (front.map (·.1)) ++
      if turn.works then [node.id] else [] := by
  rw [h.isRun.performed_eq, filterMap_work, List.filter_append,
    List.map_append, filter_works_of_goesOn h.goesOn, List.filter_cons,
    filter_works_missed]
  cases turn.works <;> rfl

theorem left (h : Stopped work cancelled stamp front node turn rest outcome) :
    outcome.statusOf node.id = some turn.status :=
  h.isRun.statusOf_eq h.nodup (List.mem_append_right _ List.mem_cons_self)

theorem steps_eq
    (h : Stopped work cancelled stamp front node turn rest outcome) :
    outcome.steps =
      .event (.runStarted stamp.id
        ((front.map (·.1) ++ node :: rest).map (·.id))) ::
      (rowSteps stamp.id front ++ (turn.steps stamp.id node ++
        (rowSteps stamp.id (rest.map (·, .missed)) ++ [.event
          (.runFinished stamp.id outcome.execution.status
            stamp.durationMs)]))) := by
  rw [h.isRun.steps_eq, rowSteps_append, rowSteps_cons, List.append_assoc,
    List.append_assoc]

theorem seesCancellation
    (h : Stopped work cancelled stamp front node turn rest outcome)
    (before : List RunStep) {after : List RunStep}
    (hsteps : turn.steps stamp.id node = before ++ .look true :: after)
    (hfirst : .look true ∉ before)
    (hsettled : before.filterMap RunStep.settled? = [])
    (hidle : after.filterMap RunStep.work? = []) :
    SeesCancellation cancelled outcome (front.map (·.1)) := by
  have hsplit := h.steps_eq
  rw [hsteps, List.append_assoc, ← List.append_assoc, ← List.cons_append]
    at hsplit
  refine ⟨_, after ++ _, hsplit, ?_, ?_, ?_, ?_⟩
  · simpa [hfirst] using not_mem_rowSteps_of_goesOn h.goesOn
  · exact h.isRun.eq_of_look hsplit
  · rw [List.filterMap_cons_none rfl, List.filterMap_append,
      filterMap_settled, hsettled, List.append_nil, List.map_map]
    rfl
  · rw [List.filterMap_append, hidle, List.filterMap_append, filterMap_work,
      filter_works_missed]
    rfl

theorem endsAt_cancelled
    (h : Stopped work cancelled stamp front node turn rest outcome)
    (hturn : turn.ending? = some .cancelled)
    (hleft : turn.status = if node.enabled then .cancelled else .skipped)
    (hwork : turn.works = true → node.enabled = true ∧ work node = .ok ())
    (hseen : SeesCancellation cancelled outcome (front.map (·.1))) :
    EndsAt work cancelled (front.map (·.1) ++ node :: rest) outcome
      front.length := by
  have hstatus := Option.some.inj (h.ends.symm.trans hturn)
  refine .cancelled (here _ _ _) ?_ ?_ hstatus ?_ ?_
  · rwa [take_eq]
  · rw [h.left, hleft]
  · rw [h.issues_eq]
    cases turn <;> first | rfl | cases hturn
  · rw [take_eq, h.performed_eq]
    cases hworks : turn.works with
    | false => exact .inl (List.append_nil _)
    | true => exact .inr ⟨(hwork hworks).1, (hwork hworks).2, rfl⟩

theorem endsAt
    (h : Stopped work cancelled stamp front node turn rest outcome) :
    EndsAt work cancelled (front.map (·.1) ++ node :: rest) outcome
      front.length := by
  obtain ⟨sofar, htakes⟩ := h.takes
  have hends := h.ends
  cases htakes with
  | passed => cases hends
  | succeeded => cases hends
  | halted enabled _ =>
      refine h.endsAt_cancelled rfl (by simp [enabled, Turn.status]) ?_ ?_
      · intro hworks
        cases hworks
      · exact h.seesCancellation [] rfl (by simp) rfl rfl
  | withdrawn enabled _ =>
      refine h.endsAt_cancelled rfl (by simp [enabled, Turn.status]) ?_ ?_
      · intro hworks
        cases hworks
      · exact h.seesCancellation [_] rfl (by simp [Turn.change]) rfl
          rfl
  | abandoned enabled _ result _ =>
      refine h.endsAt_cancelled rfl (by simp [enabled, Turn.status]) ?_ ?_
      · exact fun _ => ⟨enabled, result⟩
      · exact h.seesCancellation [_, _, _] rfl (by simp [Turn.change])
          rfl rfl
  | @failed fault enabled _ result =>
      -- No look saw the cancellation here: it is the work that ended the run.
      have hstatus := (Option.some.inj hends).symm
      refine .failed (here _ _ _) ?_ enabled result h.left hstatus h.issues_eq
        ?_
      · rw [h.steps_eq]
        simp [Turn.steps, Turn.change, not_mem_rowSteps_of_goesOn h.goesOn,
          not_mem_rowSteps_missed]
      · rw [take_eq]
        exact h.performed_eq

theorem past (h : Stopped work cancelled stamp front node turn rest outcome) :
    ∀ other ∈ front.map (·.1), WentPast work outcome other := by
  simp only [List.forall_mem_map]
  intro turn hturn
  exact h.isRun.wentPast h.nodup (List.mem_append_left _ hturn)
    (h.goesOn turn hturn)

theorem behind
    (h : Stopped work cancelled stamp front node turn rest outcome) :
    ∀ other ∈ rest, outcome.statusOf other.id = some .skipped := by
  intro other hother
  have hmissed : (other, Turn.missed) ∈ rest.map (·, .missed) :=
    List.mem_map_of_mem hother
  exact h.isRun.statusOf_eq h.nodup
    (List.mem_append_right _ (List.mem_cons_of_mem _ hmissed))

end Stopped

theorem IsRun.exists_shape
    (h : IsRun work cancelled stamp order turns outcome)
    (hnodup : (order.map (·.id)).Nodup) :
    ∃ i, Shape work cancelled order outcome i := by
  have hends := h.unfolds.ends
  -- The status is an index of `Ends`: the cases need it as a variable.
  generalize hstatus : outcome.execution.status = status at hends
  cases hends with
  | through hgoes =>
      refine ⟨order.length, ?_, h.finished hgoes hstatus, ?_,
        fun _ _ _ => h.eq_of_look, h.names_perm hnodup,
        fun _ _ => h.terminal hnodup⟩
      · rw [List.take_length, ← h.nodes_eq]
        simp only [List.forall_mem_map]
        exact fun turn hturn => h.wentPast hnodup hturn (hgoes turn hturn)
      · rw [List.drop_of_length_le (Nat.le_succ _)]
        exact fun _ hnil => absurd hnil List.not_mem_nil
  | @early front node turn rest _ hgoes htakes hend =>
      have horder : order = front.map (·.1) ++ node :: rest := by
        rw [← h.nodes_eq]
        simp [Function.comp_def]
      subst horder
      have hstopped : Stopped work cancelled stamp front node turn rest
          outcome := ⟨h, hnodup, hgoes, ⟨_, htakes⟩, hstatus ▸ hend⟩
      refine ⟨front.length, ?_, hstopped.endsAt, ?_,
        fun _ _ _ => h.eq_of_look, h.names_perm hnodup,
        fun _ _ => h.terminal hnodup⟩
      · rw [Stopped.take_eq]
        exact hstopped.past
      · rw [Stopped.drop_eq]
        exact hstopped.behind

/-! ## Runs of plans -/

/-- A plan that validation hands out can be run with any nodes among which its
ids are found, and the run has a shape. -/
theorem run_has_shape {validated nodes : List Node} {edges : List Edge}
    {plan : Plan} (h : (validate validated edges).plan = some plan)
    (hfound : ∀ id ∈ plan.nodesInOrder, ∃ node ∈ nodes, node.id = id)
    (work : Work) (cancelled : Cancellation) (stamp : Stamp) :
    ∃ outcome order i,
      runPlan stamp nodes plan work cancelled = .ok outcome ∧
        order.map (·.id) = plan.nodesInOrder ∧
        (∀ node ∈ order, findNode? nodes node.id = some node) ∧
        Shape work cancelled order outcome i := by
  obtain ⟨outcome, hrun⟩ := exists_runPlan_eq_ok hfound work cancelled stamp
  obtain ⟨order, turns, hids, hnodes, hisRun⟩ := isRun_of_runPlan hrun
  have hnodup : (order.map (·.id)).Nodup := hids ▸ nodesInOrder_nodup h
  obtain ⟨i, hshape⟩ := hisRun.exists_shape hnodup
  exact ⟨outcome, order, i, hrun, hids, hnodes, hshape⟩

/-- A run of the diamond that is cancelled while its second node works. -/
theorem run_has_shape_diamond : ∃ plan outcome order i,
    diamond.validate.plan = some plan ∧
      outcome.execution.status = .cancelled ∧
      outcome.performed = ["start", "right"] ∧
      runPlan ⟨"run", .start, .start, 0⟩ diamond.nodes plan
        (Simulation.work {}) (fun steps => .work "right" ∈ steps) =
          .ok outcome ∧
      order.map (·.id) = plan.nodesInOrder ∧
      (∀ node ∈ order, findNode? diamond.nodes node.id = some node) ∧
      Shape (Simulation.work {}) (fun steps => .work "right" ∈ steps) order
        outcome i := by
  have hresult : (diamond.validate.plan.map fun plan =>
      (runPlan ⟨"run", .start, .start, 0⟩ diamond.nodes plan
        (Simulation.work {}) (fun steps => .work "right" ∈ steps)).map
          fun outcome => (outcome.execution.status, outcome.performed)) =
      some (.ok (.cancelled, ["start", "right"])) := by rfl
  have horder : diamond.validate.plan.map (·.nodesInOrder) =
      some ["start", "right", "left", "join"] := by decide
  obtain ⟨plan, hplan, hids⟩ := Option.map_eq_some_iff.mp horder
  have hfound : ∀ id ∈ plan.nodesInOrder,
      ∃ node ∈ diamond.nodes, node.id = id := by
    rw [hids]
    decide
  obtain ⟨outcome, order, i, hrun, hnodes, hall, hshape⟩ :=
    run_has_shape hplan hfound (Simulation.work {})
      (fun steps => .work "right" ∈ steps) ⟨"run", .start, .start, 0⟩
  rw [hplan, Option.map_some, hrun] at hresult
  obtain ⟨hstatus, hperformed⟩ :=
    Prod.mk.inj (Except.ok.inj (Option.some.inj hresult))
  exact ⟨plan, outcome, order, i, hplan, hstatus, hperformed, hrun, hnodes,
    hall, hshape⟩

end Flowgraph
