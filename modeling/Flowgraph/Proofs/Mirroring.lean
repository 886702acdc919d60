import Flowgraph.Proofs.Shape
import Flowgraph.Proofs.Stream
import Flowgraph.Run.Board
import Mathlib.Data.List.Infix

/-!
# The board of a run

A run keeps the statuses of its nodes in a table of its own and tells of every
change; a board hears the events and keeps another table. Nothing but the stream
of events joins the two, and yet the board shows at every moment what the run
has in its table, whatever it showed before.

To say so one has to look into a run while it goes on. `Course.moments` lists
the states that a run goes through, one behind each of its steps, and `Passes`
says that it goes from each to the next by one of the few things a run does and
arrives where the run ends. The invariant `Mirrors` is preserved by each of
these things, and the begin of a run establishes it, because it replaces all
that the board has shown.
-/

namespace Flowgraph

/-! ## The moments of a run -/

namespace Progress

/-- The events that have been told. -/
def events (p : Progress) : List Event := p.steps.filterMap RunStep.event?

/-- Tells why the work of a node failed. -/
def tell (p : Progress) (node : Node) (fault : WorkFault) : Progress :=
  { p with
    steps := p.steps ++ [.event (.nodeFailed p.runId node.id fault.message)]
    issues := p.issues ++ [Turn.failure node fault] }

/-- Tells that the run has ended. -/
def finish (p : Progress) (stamp : Stamp) (status : RunStatus) : Progress :=
  { p with
    steps := p.steps ++
      [.event (.runFinished stamp.id status stamp.durationMs)] }

/-- The states that skipping nodes goes through. -/
def skipMoments (p : Progress) : List Node → List Progress
  | [] => []
  | node :: rest =>
    let skipped := p.mark node .skipped
    skipped :: skipMoments skipped rest

end Progress

/-- The states that `runNodes` goes through, and then the skipping of the nodes
that it leaves over. -/
def runMoments (work : Work) (cancelled : Cancellation) :
    List Node → Progress → List Progress
  | [], _ => []
  | node :: rest, p =>
    if !node.enabled then
      let (stop, looked) := p.look cancelled
      if stop then looked :: looked.skipMoments (node :: rest)
      else
        let skipped := looked.mark node .skipped
        looked :: skipped :: runMoments work cancelled rest skipped
    else
      let running := p.mark node .running
      let (stop, looked) := running.look cancelled
      if stop then
        let ended := looked.mark node .cancelled
        running :: looked :: ended :: ended.skipMoments rest
      else
        let worked := looked.workOn node
        match work node with
        | .error fault =>
          let failed := worked.mark node .failed
          let told := failed.tell node fault
          running :: looked :: worked :: failed :: told :: told.skipMoments rest
        | .ok () =>
          let (stop, again) := worked.look cancelled
          if stop then
            let ended := again.mark node .cancelled
            running :: looked :: worked :: again :: ended ::
              ended.skipMoments rest
          else
            let ended := again.mark node .succeeded
            running :: looked :: worked :: again :: ended ::
              runMoments work cancelled rest ended

/-- The states that a whole run goes through, one behind each of its steps. -/
def Course.moments (stamp : Stamp) (nodes : List Node) (work : Work)
    (cancelled : Cancellation) : List Progress :=
  let start := Progress.start stamp.id (nodes.map (·.id))
  let stop := runNodes work cancelled nodes start
  start :: runMoments work cancelled nodes start ++
    [(Progress.settle stop).finish stamp stop.status]

/-! ## From one moment to the next -/

/-- The things that a run does, one at a time. -/
inductive Advances (cancelled : Cancellation) : Progress → Progress → Prop
  | mark (p : Progress) (node : Node) (status : NodeStatus) :
      Advances cancelled p (p.mark node status)
  | look (p : Progress) : Advances cancelled p (p.look cancelled).2
  | workOn (p : Progress) (node : Node) : Advances cancelled p (p.workOn node)
  | tell (p : Progress) (node : Node) (fault : WorkFault) :
      Advances cancelled p (p.tell node fault)
  | finish (p : Progress) (stamp : Stamp) (status : RunStatus) :
      Advances cancelled p (p.finish stamp status)

/-- A run gets from one state to another by way of the given moments, the last
of which is where it arrives. -/
inductive Passes (cancelled : Cancellation) :
    Progress → List Progress → Progress → Prop
  | stay (p : Progress) : Passes cancelled p [] p
  | next {p q r : Progress} {moments : List Progress}
      (step : Advances cancelled p q) (rest : Passes cancelled q moments r) :
      Passes cancelled p (q :: moments) r

variable {cancelled : Cancellation} {p q r : Progress} {later : List Progress}
  {board : Board}

theorem Passes.concat (h : Passes cancelled p later q)
    (step : Advances cancelled q r) :
    Passes cancelled p (later ++ [r]) r := by
  induction h with
  | stay p => exact .next step (.stay r)
  | next first _ ih => exact .next first (ih step)

theorem passes_skipAll (cancelled : Cancellation) (nodes : List Node)
    (p : Progress) :
    Passes cancelled p (p.skipMoments nodes) (p.skipAll nodes) := by
  induction nodes generalizing p with
  | nil => exact .stay p
  | cons node rest ih => exact .next (.mark p node .skipped) (ih _)

/-- The moments lead to where the run ends. -/
theorem passes_runNodes (work : Work) (cancelled : Cancellation)
    (nodes : List Node) (p : Progress) :
    Passes cancelled p (runMoments work cancelled nodes p)
      (Progress.settle (runNodes work cancelled nodes p)) := by
  induction nodes generalizing p with
  | nil => exact .stay p
  | cons node rest ih =>
      cases henabled : node.enabled with
      | false =>
          cases hlook : (p.look cancelled).1 with
          | true =>
              simp only [runMoments, runNodes, henabled, hlook, Bool.not_false,
                if_true]
              exact .next (.look p) (passes_skipAll cancelled (node :: rest) _)
          | false =>
              simp only [runMoments, runNodes, henabled, hlook, Bool.not_false,
                if_true, Bool.false_eq_true, if_false]
              exact .next (.look p) (.next (.mark ..) (ih _))
      | true =>
          cases hlook : ((p.mark node .running).look cancelled).1 with
          | true =>
              simp only [runMoments, runNodes, henabled, hlook, Bool.not_true,
                if_true, Bool.false_eq_true, if_false]
              exact .next (.mark ..) (.next (.look _) (.next (.mark ..)
                (passes_skipAll cancelled rest _)))
          | false =>
              have hwork {after : List Progress} {q : Progress}
                  (hafter : Passes cancelled (((p.mark node .running).look
                    cancelled).2.workOn node) after q) :
                  Passes cancelled p (p.mark node .running ::
                    ((p.mark node .running).look cancelled).2 ::
                    ((p.mark node .running).look cancelled).2.workOn node ::
                    after) q :=
                .next (.mark ..) (.next (.look _) (.next (.workOn ..) hafter))
              cases hresult : work node with
              | error fault =>
                  simp only [runMoments, runNodes, henabled, hlook, hresult,
                    Bool.not_true, Bool.false_eq_true, if_false]
                  exact hwork (.next (.mark ..) (.next (.tell ..)
                    (passes_skipAll cancelled rest _)))
              | ok _ =>
                  cases hsecond : ((((p.mark node .running).look
                      cancelled).2.workOn node).look cancelled).1 with
                  | true =>
                      simp only [runMoments, runNodes, henabled, hlook, hresult,
                        hsecond, Bool.not_true, Bool.false_eq_true, if_true,
                        if_false]
                      exact hwork (.next (.look _) (.next (.mark ..)
                        (passes_skipAll cancelled rest _)))
                  | false =>
                      simp only [runMoments, runNodes, henabled, hlook, hresult,
                        hsecond, Bool.not_true, Bool.false_eq_true, if_false]
                      exact hwork (.next (.look _) (.next (.mark ..) (ih _)))

/-- The moments of a run begin where it begins and lead to its outcome. -/
theorem passes_moments (stamp : Stamp) (nodes : List Node) (work : Work)
    (cancelled : Cancellation) : ∃ later last,
      Course.moments stamp nodes work cancelled =
        .start stamp.id (nodes.map (·.id)) :: later ∧
      Passes cancelled (.start stamp.id (nodes.map (·.id))) later last ∧
      last.steps = ((Course.of stamp.id nodes work cancelled).outcome
        stamp).steps ∧
      last.statuses = ((Course.of stamp.id nodes work cancelled).outcome
        stamp).statuses := by
  have hpasses := passes_runNodes work cancelled nodes
    (.start stamp.id (nodes.map (·.id)))
  exact ⟨_, _, rfl, hpasses.concat (.finish _ stamp _), rfl, rfl⟩

/-! ## The steps of the moments -/

theorem Advances.exists_step (h : Advances cancelled p q) :
    ∃ step, q.steps = p.steps ++ [step] := by
  cases h <;> exact ⟨_, rfl⟩

theorem Passes.isChain (h : Passes cancelled p later q) :
    (p :: later).IsChain (Advances cancelled) := by
  induction h with
  | stay p => exact .singleton p
  | next first _ ih => exact .cons_cons first ih

/-- Every moment adds one step to those of the moment before. -/
theorem Passes.exists_steps (h : Passes cancelled p later q) :
    ∃ more, q.steps = p.steps ++ more ∧
      later.map (·.steps) = more.inits.tail.map (p.steps ++ ·) := by
  induction h with
  | stay p => exact ⟨[], by simp⟩
  | next first _ ih =>
      obtain ⟨step, hstep⟩ := first.exists_step
      obtain ⟨more, hmore, hlater⟩ := ih
      refine ⟨step :: more, by simp [hmore, hstep], ?_⟩
      rw [List.map_cons, hlater, hstep]
      cases more with
      | nil => simp
      | cons next more => simp [Function.comp_def]

/-! ## What the board shows -/

/-- A board that has heard all events so far shows what the run has in its
table. -/
def Mirrors (board : Board) (p : Progress) : Prop :=
  (board.notifyAll p.events).statuses = p.statuses

theorem Board.notifyAll_append (board : Board) (a b : List Event) :
    board.notifyAll (a ++ b) = (board.notifyAll a).notifyAll b :=
  List.foldl_append

/-- Whatever the board has shown, the begin of a run replaces it. -/
theorem mirrors_start (board : Board) (runId : String) (ids : List String) :
    Mirrors board (.start runId ids) := rfl

/-- A step tells the board of the change that it makes, if it makes one. -/
theorem Advances.mirrors (h : Advances cancelled p q) (hp : Mirrors board p) :
    Mirrors board q := by
  rw [Mirrors, Progress.events] at hp ⊢
  cases h with
  | mark node status =>
      rw [Progress.mark, List.filterMap_append, Board.notifyAll_append]
      exact congrArg (·.insert node.id status) hp
  | look =>
      rw [Progress.look, List.filterMap_append, Board.notifyAll_append]
      exact hp
  | workOn node =>
      rw [Progress.workOn, List.filterMap_append, Board.notifyAll_append]
      exact hp
  | tell node fault =>
      rw [Progress.tell, List.filterMap_append, Board.notifyAll_append]
      exact hp
  | finish stamp status =>
      rw [Progress.finish, List.filterMap_append, Board.notifyAll_append]
      exact hp

theorem Passes.mirrors (h : Passes cancelled p later q)
    (hp : Mirrors board p) :
    (∀ moment ∈ p :: later, Mirrors board moment) ∧ Mirrors board q := by
  induction h with
  | stay p => exact ⟨by simpa using hp, hp⟩
  | next first _ ih =>
      obtain ⟨hlater, hlast⟩ := ih (first.mirrors hp)
      exact ⟨List.forall_mem_cons.mpr ⟨hp, hlater⟩, hlast⟩

/-! ## The whole run -/

theorem moments_steps (stamp : Stamp) (nodes : List Node) (work : Work)
    (cancelled : Cancellation) :
    (Course.moments stamp nodes work cancelled).map (·.steps) =
      ((Course.of stamp.id nodes work cancelled).outcome
        stamp).steps.inits.tail := by
  obtain ⟨later, last, hmoments, hpasses, hsteps, _⟩ :=
    passes_moments stamp nodes work cancelled
  obtain ⟨more, hmore, hlater⟩ := hpasses.exists_steps
  rw [hmoments, List.map_cons, hlater, ← hsteps, hmore]
  cases more with
  | nil => simp [Progress.start]
  | cons step more => simp [Progress.start, Function.comp_def]

theorem moments_isChain (stamp : Stamp) (nodes : List Node) (work : Work)
    (cancelled : Cancellation) :
    (Course.moments stamp nodes work cancelled).IsChain
      (Advances cancelled) := by
  obtain ⟨later, last, hmoments, hpasses, _, _⟩ :=
    passes_moments stamp nodes work cancelled
  rw [hmoments]
  exact hpasses.isChain

theorem moments_mirrors (stamp : Stamp) (nodes : List Node) (work : Work)
    (cancelled : Cancellation) (board : Board) :
    (∀ moment ∈ Course.moments stamp nodes work cancelled,
      Mirrors board moment) ∧
    (board.notifyAll ((Course.of stamp.id nodes work cancelled).outcome
      stamp).events).statuses =
        ((Course.of stamp.id nodes work cancelled).outcome stamp).statuses := by
  obtain ⟨later, last, hmoments, hpasses, hsteps, hstatuses⟩ :=
    passes_moments stamp nodes work cancelled
  obtain ⟨hall, hlast⟩ := hpasses.mirrors (mirrors_start board _ _)
  rw [Mirrors, Progress.events, hsteps, hstatuses] at hlast
  exact ⟨hmoments ▸ hall, hlast⟩

/-- Whatever has been told, there was a moment at which no more had been. -/
theorem exists_moment {stamp : Stamp} {nodes : List Node} {work : Work}
    {cancelled : Cancellation} {before after : List Event}
    (h : ((Course.of stamp.id nodes work cancelled).outcome stamp).events =
      before ++ after) (hne : before ≠ []) :
    ∃ moment ∈ Course.moments stamp nodes work cancelled,
      moment.events = before := by
  obtain ⟨front, back, hsteps, hfront, _⟩ :=
    List.filterMap_eq_append_iff.mp h
  have hfrontNe : front ≠ [] := by
    intro hnil
    rw [hnil] at hfront
    exact hne hfront.symm
  have hmem : front ∈ (Course.moments stamp nodes work cancelled).map
      (·.steps) := by
    rw [moments_steps, hsteps]
    obtain ⟨step, rest, rfl⟩ := List.exists_cons_of_ne_nil hfrontNe
    rw [List.cons_append, List.inits_cons, List.tail_cons]
    exact List.mem_map_of_mem ((List.mem_inits _ _).mpr ⟨back, rfl⟩)
  obtain ⟨moment, hmoment, rfl⟩ := List.mem_map.mp hmem
  exact ⟨moment, hmoment, hfront⟩

/-- A board that listens to a run of a plan shows at every moment what the run
has in its table of statuses, whatever it has shown before. It begins with all
nodes of the plan pending, and what it shows in the end are the statuses of the
outcome, one for each node of the plan and no other. -/
theorem board_mirrors_run {validated nodes : List Node} {edges : List Edge}
    {plan : Plan} (h : (validate validated edges).plan = some plan)
    (hfound : ∀ id ∈ plan.nodesInOrder, ∃ node ∈ nodes, node.id = id)
    (work : Work) (cancelled : Cancellation) (stamp : Stamp) (board : Board) :
    ∃ outcome order,
      runPlan stamp nodes plan work cancelled = .ok outcome ∧
      resolve nodes plan.nodesInOrder = .ok order ∧
      (Course.moments stamp order work cancelled).map (·.steps) =
        outcome.steps.inits.tail ∧
      (Course.moments stamp order work cancelled).IsChain
        (Advances cancelled) ∧
      (∀ before after, outcome.events = before ++ after → before ≠ [] →
        (∃ moment ∈ Course.moments stamp order work cancelled,
          moment.events = before) ∧
        ∀ moment ∈ Course.moments stamp order work cancelled,
          moment.events = before →
            (board.notifyAll before).statuses = moment.statuses) ∧
      (∀ begun later, outcome.events = begun :: later →
        ∀ id, (board.notify begun).statuses.find? id =
          if id ∈ plan.nodesInOrder then some .pending else none) ∧
      (board.notifyAll outcome.events).statuses = outcome.statuses ∧
      outcome.statuses.names.Perm plan.nodesInOrder := by
  obtain ⟨outcome, hrun⟩ := exists_runPlan_eq_ok hfound work cancelled stamp
  obtain ⟨order, hresolve, rfl⟩ := runPlan_eq_ok.mp hrun
  obtain ⟨hids, _⟩ := resolve_eq_ok.mp hresolve
  obtain ⟨turns, hisRun⟩ := isRun_outcome work cancelled stamp order
  have hnodup := nodesInOrder_nodup h
  obtain ⟨hall, hlast⟩ := moments_mirrors stamp order work cancelled board
  refine ⟨_, order, hrun, hresolve, moments_steps ..,
    moments_isChain .., ?_, ?_, hlast, ?_⟩
  · intro before after hevents hne
    refine ⟨exists_moment hevents hne, fun moment hmoment htold => ?_⟩
    exact htold ▸ hall moment hmoment
  · intro begun later hevents id
    rw [hisRun.events_eq, hids] at hevents
    obtain ⟨rfl, _⟩ := List.cons.inj hevents
    exact Table.find?_ofList_map _ (fun _ => NodeStatus.pending) id
  · rw [← hids] at hnodup ⊢
    exact hisRun.names_perm hnodup

/-- A run of the diamond that is cancelled while its second node works, on a
board that still shows a node of another graph. -/
theorem board_mirrors_run_diamond :
    let board : Board := ⟨.ofList [("ghost", .running), ("left", .failed)]⟩
    let cancelled : Cancellation := fun steps => .work "right" ∈ steps
    ∃ plan outcome, diamond.validate.plan = some plan ∧
      runPlan ⟨"run", .start, .start, 0⟩ diamond.nodes plan
        (Simulation.work {}) cancelled = .ok outcome ∧
      outcome.execution.status = .cancelled ∧
      (board.notifyAll outcome.events).statuses = outcome.statuses ∧
      outcome.statuses.names.Perm plan.nodesInOrder := by
  intro board cancelled
  have hresult : (diamond.validate.plan.map fun plan =>
      (runPlan ⟨"run", .start, .start, 0⟩ diamond.nodes plan
        (Simulation.work {}) cancelled).map (·.execution.status)) =
      some (.ok .cancelled) := by rfl
  have horder : diamond.validate.plan.map (·.nodesInOrder) =
      some ["start", "right", "left", "join"] := by decide
  obtain ⟨plan, hplan, hids⟩ := Option.map_eq_some_iff.mp horder
  have hfound : ∀ id ∈ plan.nodesInOrder,
      ∃ node ∈ diamond.nodes, node.id = id := by
    rw [hids]
    decide
  obtain ⟨outcome, order, hrun, _, _, _, _, _, hlast, hnames⟩ :=
    board_mirrors_run hplan hfound (Simulation.work {}) cancelled
      ⟨"run", .start, .start, 0⟩ board
  rw [hplan, Option.map_some, hrun] at hresult
  have hstatus := Except.ok.inj (Option.some.inj hresult)
  exact ⟨plan, outcome, hplan, hrun, hstatus, hlast, hnames⟩

end Flowgraph
