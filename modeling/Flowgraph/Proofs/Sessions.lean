import Flowgraph.Proofs.PlanOrder
import Flowgraph.Proofs.Runs

/-!
# Sessions

In a session one runner answers call after call. A runner could have told and
done something already when a call turns out to fail, but every id of a plan is
looked up before its run begins. `answer_eq` is what one call comes to: it is
refused and leaves the runner as it was, or it adds the steps of its run and
replaces the record. Nothing in it depends on what the runner did before.
`Refused` says which calls are refused and why, in terms of the ids of the plan
and the errors of the report.

What a whole session leaves behind follows by induction over the calls: the
steps of the runs that took place, in their order, and the record of the last
of them.
-/

namespace Flowgraph

variable {nodes : List Node} {ids : List String} {id : String} {plan : Plan}
  {work : Work} {cancelled : Cancellation} {stamp : Stamp} {outcome : Outcome}
  {fault : RunFault} {call : RunCall} {calls : List RunCall} {runner : Runner}

/-! ## Refused calls -/

/-- An id without a node, while those in front of it have one. -/
def FirstMissing (nodes : List Node) (ids : List String) (id : String) : Prop :=
  ∃ front back, ids = front ++ id :: back ∧
    (∀ other ∈ front, ∃ node ∈ nodes, node.id = other) ∧
    ∀ node ∈ nodes, node.id ≠ id

theorem firstMissing_cons {first : String} {rest : List String} :
    FirstMissing nodes (first :: rest) id ↔
      (first = id ∧ ∀ node ∈ nodes, node.id ≠ first) ∨
        (∃ node ∈ nodes, node.id = first) ∧ FirstMissing nodes rest id := by
  constructor
  · rintro ⟨front, back, hids, hfront, hnone⟩
    cases front with
    | nil =>
        obtain ⟨rfl, rfl⟩ := List.cons.inj hids
        exact .inl ⟨rfl, hnone⟩
    | cons head front =>
        obtain ⟨rfl, rfl⟩ := List.cons.inj hids
        obtain ⟨hhead, hfront⟩ := List.forall_mem_cons.mp hfront
        exact .inr ⟨hhead, front, back, rfl, hfront, hnone⟩
  · rintro (⟨rfl, hnone⟩ | ⟨hfirst, front, back, rfl, hfront, hnone⟩)
    · exact ⟨[], rest, rfl, by simp, hnone⟩
    · exact ⟨first :: front, back, rfl,
        List.forall_mem_cons.mpr ⟨hfirst, hfront⟩, hnone⟩

/-- Ids are not resolved just if one of them is missing, and the first such one
is named. -/
theorem resolve_eq_error : resolve nodes ids = .error fault ↔
    ∃ id, FirstMissing nodes ids id ∧ fault = .unknownNode id := by
  induction ids with
  | nil =>
      constructor
      · intro h
        cases h
      · rintro ⟨id, ⟨front, back, hids, _⟩, _⟩
        cases front <;> cases hids
  | cons first rest ih =>
      simp only [resolve_cons, firstMissing_cons]
      cases hnode : findNode? nodes first with
      | none =>
          have hnone := findNode?_eq_none.mp hnode
          constructor
          · intro h
            cases h
            exact ⟨first, .inl ⟨rfl, hnone⟩, rfl⟩
          · rintro ⟨id, ⟨rfl, _⟩ | ⟨⟨node, hmem, hid⟩, _⟩, rfl⟩
            · rfl
            · exact absurd hid (hnone node hmem)
      | some node =>
          have hfirst := findNode?_isSome.mp (Option.isSome_of_eq_some hnode)
          have hmap : (resolve nodes rest).map (node :: ·) = .error fault ↔
              resolve nodes rest = .error fault := by
            cases resolve nodes rest <;> simp [Except.map]
          rw [hmap, ih]
          refine exists_congr fun id => and_congr_left fun _ => ?_
          constructor
          · exact fun h => .inr ⟨hfirst, h⟩
          · rintro (⟨_, hnone⟩ | ⟨_, h⟩)
            · obtain ⟨node, hmem, hid⟩ := hfirst
              exact absurd hid (hnone node hmem)
            · exact h

theorem runPlan_eq_error :
    runPlan stamp nodes plan work cancelled = .error fault ↔
      ∃ id, FirstMissing nodes plan.nodesInOrder id ∧
        fault = .unknownNode id := by
  rw [← resolve_eq_error, runPlan_eq_map]
  cases resolve nodes plan.nodesInOrder <;> simp [Except.map]

/-- The plan or the report of a target comes from validation, of whatever
graph. -/
def RunTarget.FromValidation : RunTarget → Prop
  | .plan _ made => ∃ nodes edges, (validate nodes edges).plan = some made
  | .report _ made => ∃ nodes edges, made = validate nodes edges

/-- Why a target is refused: an id of the plan is missing, or the report has
errors. -/
inductive RunTarget.Refused : RunTarget → RunFault → Prop
  | unknown {nodes : List Node} {plan : Plan} {id : String}
      (missing : FirstMissing nodes plan.nodesInOrder id) :
      Refused (.plan nodes plan) (.unknownNode id)
  | errors {graph : Graph} {report : Report} (some_errors : 0 < report.errors) :
      Refused (.report graph report) (.notRunnable report.errors)
  | unknownInGraph {graph : Graph} {report : Report} {plan : Plan} {id : String}
      (no_errors : report.errors = 0) (planned : report.plan = some plan)
      (missing : FirstMissing graph.nodes plan.nodesInOrder id) :
      Refused (.report graph report) (.unknownNode id)

/-- What comes of a call for a runner that has not run anything yet. -/
def RunCall.result (call : RunCall) : Except RunFault Outcome :=
  (({} : Runner).answer call).1

theorem result_plan :
    RunCall.result ⟨stamp, .plan nodes plan, work, cancelled⟩ =
      runPlan stamp nodes plan work cancelled := rfl

theorem result_report {graph : Graph} {report : Report} :
    RunCall.result ⟨stamp, .report graph report, work, cancelled⟩ =
      runReport stamp graph report work cancelled := rfl

theorem result_eq_error (h : call.target.FromValidation) :
    call.result = .error fault ↔ call.target.Refused fault := by
  obtain ⟨stamp, target, work, cancelled⟩ := call
  cases target with
  | plan nodes plan =>
      rw [result_plan, runPlan_eq_error]
      constructor
      · rintro ⟨id, hmissing, rfl⟩
        exact .unknown hmissing
      · rintro ⟨hmissing⟩
        exact ⟨_, hmissing, rfl⟩
  | report graph report =>
      obtain ⟨validated, edges, rfl⟩ := h
      have hplan : (validate validated edges).plan.isSome ↔
          (validate validated edges).errors = 0 := plan_isSome_iff
      rw [result_report]
      cases hmade : (validate validated edges).plan with
      | none =>
          have herrors : (validate validated edges).errors ≠ 0 := by
            simpa [hmade] using hplan.symm
          rw [runReport_eq_error hmade]
          constructor
          · intro h
            cases h
            exact .errors (Nat.pos_of_ne_zero herrors)
          · rintro (_ | _ | ⟨hnone, _, _⟩)
            · rfl
            · exact absurd hnone herrors
      | some plan =>
          have herrors : (validate validated edges).errors = 0 := by
            simpa [hmade] using hplan.symm
          rw [runReport_eq hmade, runPlan_eq_error]
          constructor
          · rintro ⟨id, hmissing, rfl⟩
            exact .unknownInGraph herrors hmade hmissing
          · intro h
            cases h with
            | errors hpos => omega
            | unknownInGraph _ hplanned hmissing =>
                cases hmade.symm.trans hplanned
                exact ⟨_, hmissing, rfl⟩

/-! ## Records of runs -/

theorem Unfolds.status_ne_running {runId : String} {sofar : List RunStep}
    {turns : List (Node × Turn)} {status : RunStatus}
    (h : Unfolds work cancelled runId sofar turns status) :
    status ≠ .running := by
  induction h with
  | finished => simp
  | next _ _ _ ih => exact ih
  | @stop _ _ turn _ _ _ ends =>
      rintro rfl
      cases turn <;> cases ends

/-- A result of a call is a run that has ended. -/
theorem execution_of_result_eq_ok (h : call.result = .ok outcome) :
    outcome.execution.isFinished = true ∧
      outcome.execution.status ≠ .running := by
  have hplan : ∃ nodes plan,
      runPlan call.stamp nodes plan call.work call.cancelled = .ok outcome := by
    obtain ⟨stamp, target, work, cancelled⟩ := call
    cases target with
    | plan nodes plan => exact ⟨nodes, plan, h⟩
    | report graph report =>
        rw [result_report] at h
        cases hplan : report.plan with
        | none =>
            rw [runReport_eq_error hplan] at h
            cases h
        | some plan => exact ⟨_, plan, (runReport_eq hplan).symm.trans h⟩
  obtain ⟨nodes, plan, hrun⟩ := hplan
  obtain ⟨_, turns, _, _, hisRun⟩ := isRun_of_runPlan hrun
  refine ⟨?_, hisRun.unfolds.status_ne_running⟩
  obtain ⟨order, _, rfl⟩ := runPlan_eq_ok.mp hrun
  rfl

/-! ## Call after call -/

namespace Runner

/-- A runner after a call, by what came of the call. -/
def after (runner : Runner) : Except RunFault Outcome → Runner
  | .ok outcome =>
    { last := some outcome.execution, steps := runner.steps ++ outcome.steps }
  | .error _ => runner

/-- Answers calls one after another. -/
def answerAll (runner : Runner) :
    List RunCall → List (Except RunFault Outcome) × Runner
  | [] => ([], runner)
  | call :: rest =>
    let (result, next) := runner.answer call
    let (results, last) := next.answerAll rest
    (result :: results, last)

end Runner

/-- The runs that took place, by what came of the calls. -/
def outcomes (results : List (Except RunFault Outcome)) : List Outcome :=
  results.filterMap Except.toOption

/-- The nodes of a plan are looked up before anything is told or done. -/
theorem run_on : (Runner.run stamp nodes plan work cancelled).on runner =
    (runPlan stamp nodes plan work cancelled,
      runner.after (runPlan stamp nodes plan work cancelled)) := by
  rw [runPlan, Runner.run]
  cases resolve nodes plan.nodesInOrder <;> rfl

theorem runReport_on {graph : Graph} {report : Report} :
    (Runner.runReport stamp graph report work cancelled).on runner =
      (runReport stamp graph report work cancelled,
        runner.after (runReport stamp graph report work cancelled)) := by
  rw [Runner.runReport]
  cases hplan : report.plan with
  | none =>
      rw [runReport_eq_error hplan]
      rfl
  | some plan =>
      rw [runReport_eq hplan]
      exact run_on

/-- What comes of a call does not depend on what the runner did before, and it
says what the runner is afterwards. -/
theorem answer_eq (runner : Runner) (call : RunCall) :
    runner.answer call = (call.result, runner.after call.result) := by
  obtain ⟨stamp, target, work, cancelled⟩ := call
  cases target with
  | plan nodes plan => exact run_on
  | report graph report => exact runReport_on

theorem answerAll_eq (runner : Runner) (calls : List RunCall) :
    runner.answerAll calls = (calls.map RunCall.result,
      (calls.map RunCall.result).foldl Runner.after runner) := by
  induction calls generalizing runner with
  | nil => rfl
  | cons call rest ih => simp only [Runner.answerAll, answer_eq, ih,
      List.map_cons, List.foldl_cons]

theorem foldl_after (runner : Runner)
    (results : List (Except RunFault Outcome)) :
    results.foldl Runner.after runner =
      ⟨((outcomes results).getLast?.map (·.execution)).or runner.last,
        runner.steps ++ (outcomes results).flatMap (·.steps)⟩ := by
  induction results generalizing runner with
  | nil => simp [outcomes]
  | cons result rest ih =>
      rw [List.foldl_cons, ih]
      cases result with
      | error fault => rfl
      | ok outcome =>
          have hsome : outcomes (.ok outcome :: rest) =
              outcome :: outcomes rest := rfl
          rw [hsome, List.getLast?_cons, List.flatMap_cons, ← List.append_assoc]
          cases (outcomes rest).getLast? <;> rfl

/-! ## Whole sessions -/

/-- With the report of its own validation a graph is refused just for its
errors: every id that gets into a plan is that of a node. -/
theorem refused_validate_iff {graph : Graph} :
    (RunTarget.report graph graph.validate).Refused fault ↔
      0 < graph.validate.errors ∧
        fault = .notRunnable graph.validate.errors := by
  constructor
  · rintro (_ | hpos | ⟨_, hplan, front, back, hids, _, hnone⟩)
    · exact ⟨hpos, rfl⟩
    · have hid := (nodesInOrder_perm hplan).mem_iff.mp
        (hids ▸ List.mem_append_right _ List.mem_cons_self)
      obtain ⟨node, hnode, hid⟩ := List.mem_map.mp hid
      exact absurd hid (hnone node hnode)
  · rintro ⟨hpos, rfl⟩
    exact .errors hpos

/-- Which calls of a session are refused, and that these leave no trace, neither
in the record nor among what is told and done: all steps are those of the runs
that took place, and the record is that of the last of them. -/
theorem session_errors_leave_no_trace (runner : Runner)
    (calls : List RunCall) (h : ∀ call ∈ calls, call.target.FromValidation) :
    List.Forall₂ (fun call result => ∀ fault,
      result = .error fault ↔ call.target.Refused fault)
      calls (runner.answerAll calls).1 ∧
    (∀ front call back fault, calls = front ++ call :: back →
      ((runner.answerAll front).2.answer call).1 = .error fault →
        ((runner.answerAll front).2.answer call).2 =
          (runner.answerAll front).2) ∧
    (runner.answerAll calls).2.steps = runner.steps ++
      (outcomes (runner.answerAll calls).1).flatMap (·.steps) ∧
    (runner.answerAll calls).2.last =
      ((outcomes (runner.answerAll calls).1).getLast?.map (·.execution)).or
        runner.last ∧
    (∀ outcome ∈ outcomes (runner.answerAll calls).1,
      outcome.execution.isFinished = true ∧
        outcome.execution.status ≠ .running) ∧
    ∀ (graph : Graph) stamp work cancelled fault,
      (runner.answer
          ⟨stamp, .report graph graph.validate, work, cancelled⟩).1 =
          .error fault ↔
        0 < graph.validate.errors ∧
          fault = .notRunnable graph.validate.errors := by
  simp only [answer_eq, answerAll_eq, foldl_after, true_and]
  refine ⟨?_, ?_, ?_, ?_⟩
  · exact List.forall₂_map_right_iff.mpr (List.forall₂_same.mpr
      fun call hcall _ => result_eq_error (h call hcall))
  · intro front call back fault _ herror
    rw [herror]
    rfl
  · intro outcome hmem
    obtain ⟨result, hresult, houtcome⟩ := List.mem_filterMap.mp hmem
    obtain ⟨call, _, rfl⟩ := List.mem_map.mp hresult
    have hok : call.result = .ok outcome := by
      cases hcall : call.result with
      | error fault => rw [hcall] at houtcome; cases houtcome
      | ok other => rw [hcall] at houtcome; cases houtcome; rfl
    exact execution_of_result_eq_ok hok
  · intro graph stamp work cancelled fault
    refine (result_eq_error ?_).trans refused_validate_iff
    exact ⟨graph.nodes, graph.edges, rfl⟩

/-- Three calls: the report has errors, all is well, the nodes are not there. -/
def mixedCalls : List RunCall :=
  [(diamond, Graph.validate {}), (diamond, diamond.validate),
   ({}, diamond.validate)].map fun (graph, report) =>
    ⟨⟨"run", .start, .start, 0⟩, .report graph report, Simulation.work {},
      .never⟩

/-- The runner has told of an earlier run already. -/
theorem session_errors_leave_no_trace_mixedCalls :
    let runner : Runner := { steps := [.event (.runStarted "old" [])] }
    let session := runner.answerAll mixedCalls
    (∀ call ∈ mixedCalls, call.target.FromValidation) ∧
      (session.1.map fun
        | .ok _ => none
        | .error fault => some fault) =
        [some (.notRunnable 1), none, some (.unknownNode "start")] ∧
      List.Forall₂ (fun call result => ∀ fault,
        result = .error fault ↔ call.target.Refused fault)
        mixedCalls session.1 ∧
      (∀ front call back fault, mixedCalls = front ++ call :: back →
        ((runner.answerAll front).2.answer call).1 = .error fault →
          ((runner.answerAll front).2.answer call).2 =
            (runner.answerAll front).2) ∧
      session.2.steps =
        runner.steps ++ (outcomes session.1).flatMap (·.steps) ∧
      session.2.last = (outcomes session.1).getLast?.map (·.execution) := by
  intro runner session
  have hvalid : ∀ call ∈ mixedCalls, call.target.FromValidation := by
    simp only [mixedCalls, List.map_cons, List.map_nil, List.forall_mem_cons]
    exact ⟨⟨[], [], rfl⟩, ⟨diamond.nodes, diamond.edges, rfl⟩,
      ⟨diamond.nodes, diamond.edges, rfl⟩, by simp⟩
  obtain ⟨hrefused, htrace, hsteps, hlast, _⟩ :=
    session_errors_leave_no_trace runner mixedCalls hvalid
  exact ⟨hvalid, by decide, hrefused, htrace, hsteps,
    hlast.trans Option.or_none⟩

end Flowgraph
