import Flowgraph.Run.Runner
import Flowgraph.Proofs.Table

/-!
# A run, turn by turn

Every node of a run gets one turn, and there are seven things a turn can be. A
turn says all there is to say about its node: the steps it adds to the run, the
status and the issue it leaves, and whether it ends the run. `TakesTurn` says
which turn a node takes after given steps, by the looks that are made in it and
by the outcome of its work; `Unfolds` puts turns in a row, up to the one that
ends the run, after which every node misses its turn.

`unfold_runNodes` shows that a run is nothing but such a row, whatever the
nodes, the work and the moment of the cancellation are. What holds of whole runs
is then a matter of the row, by induction on `Unfolds`.
-/

namespace Flowgraph

/-- What the turn of a node in a run is. -/
inductive Turn where
  /-- A disabled node is passed by. -/
  | passed
  /-- The look at a disabled node sees the cancellation. -/
  | halted
  /-- The look before the work sees the cancellation. -/
  | withdrawn
  | failed (fault : WorkFault)
  /-- The look behind the work sees the cancellation. -/
  | abandoned
  | succeeded
  /-- The run was over before. -/
  | missed
  deriving DecidableEq

namespace Turn

/-- The status that a turn leaves. -/
def status : Turn → NodeStatus
  | passed | halted | missed => .skipped
  | withdrawn | abandoned => .cancelled
  | failed _ => .failed
  | succeeded => .succeeded

theorem isTerminal_status (turn : Turn) : turn.status.isTerminal = true := by
  cases turn <;> rfl

/-- The status of a run that a turn ends. -/
def ending? : Turn → Option RunStatus
  | halted | withdrawn | abandoned => some .cancelled
  | failed _ => some .failed
  | passed | succeeded | missed => none

/-- The step by which a node gets a status. -/
def change (runId : String) (node : Node) (status : NodeStatus) : RunStep :=
  .event (.nodeStatusChanged runId node.id status)

/-- The steps of a turn. -/
def steps (runId : String) (node : Node) : Turn → List RunStep
  | passed => [.look false, change runId node .skipped]
  | halted => [.look true, change runId node .skipped]
  | withdrawn =>
    [change runId node .running, .look true, change runId node .cancelled]
  | failed fault =>
    [change runId node .running, .look false, .work node.id,
     change runId node .failed,
     .event (.nodeFailed runId node.id fault.message)]
  | abandoned =>
    [change runId node .running, .look false, .work node.id, .look true,
     change runId node .cancelled]
  | succeeded =>
    [change runId node .running, .look false, .work node.id, .look false,
     change runId node .succeeded]
  | missed => [change runId node .skipped]

/-- The issue of a node whose work failed. -/
def failure (node : Node) (fault : WorkFault) : Issue :=
  { Issue.error .runtime .nodeFailed fault.message with nodeId := some node.id }

/-- The issues that a turn leaves. -/
def issues (node : Node) : Turn → List Issue
  | failed fault => [failure node fault]
  | _ => []

end Turn

section

variable (work : Work) (cancelled : Cancellation) (runId : String)

/-- The turn that a node takes after the steps of a run so far. -/
inductive TakesTurn (sofar : List RunStep) (node : Node) : Turn → Prop
  | passed (enabled : node.enabled = false)
      (look : cancelled sofar = false) : TakesTurn sofar node .passed
  | halted (enabled : node.enabled = false)
      (look : cancelled sofar = true) : TakesTurn sofar node .halted
  | withdrawn (enabled : node.enabled = true)
      (look : cancelled (sofar ++ [Turn.change runId node .running]) = true) :
      TakesTurn sofar node .withdrawn
  | failed {fault : WorkFault} (enabled : node.enabled = true)
      (look : cancelled (sofar ++ [Turn.change runId node .running]) = false)
      (result : work node = .error fault) : TakesTurn sofar node (.failed fault)
  | abandoned (enabled : node.enabled = true)
      (look : cancelled (sofar ++ [Turn.change runId node .running]) = false)
      (result : work node = .ok ())
      (second : cancelled (sofar ++ [Turn.change runId node .running,
        .look false, .work node.id]) = true) : TakesTurn sofar node .abandoned
  | succeeded (enabled : node.enabled = true)
      (look : cancelled (sofar ++ [Turn.change runId node .running]) = false)
      (result : work node = .ok ())
      (second : cancelled (sofar ++ [Turn.change runId node .running,
        .look false, .work node.id]) = false) : TakesTurn sofar node .succeeded

/-- A row of turns, with the status of the run that is made of them. -/
inductive Unfolds :
    List RunStep → List (Node × Turn) → RunStatus → Prop
  | finished {sofar : List RunStep} : Unfolds sofar [] .succeeded
  | next {sofar : List RunStep} {node : Node} {turn : Turn}
      {rest : List (Node × Turn)} {status : RunStatus}
      (takes : TakesTurn work cancelled runId sofar node turn)
      (goesOn : turn.ending? = none)
      (unfolds : Unfolds (sofar ++ turn.steps runId node) rest status) :
      Unfolds sofar ((node, turn) :: rest) status
  | stop {sofar : List RunStep} {node : Node} {turn : Turn}
      {rest : List Node} {status : RunStatus}
      (takes : TakesTurn work cancelled runId sofar node turn)
      (ends : turn.ending? = some status) :
      Unfolds sofar ((node, turn) :: rest.map (·, .missed)) status

end

/-! ## Runs are rows of turns -/

namespace Progress

/-- The progress that a turn makes. -/
def take (p : Progress) (turn : Node × Turn) : Progress :=
  { p with
    steps := p.steps ++ turn.2.steps p.runId turn.1
    statuses := p.statuses.insert turn.1.id turn.2.status
    issues := p.issues ++ turn.2.issues turn.1 }

theorem take_missed (p : Progress) (node : Node) :
    p.take (node, .missed) = p.mark node .skipped := by
  simp [take, mark, Turn.steps, Turn.issues, Turn.status, Turn.change]

theorem skipAll_eq_foldl (p : Progress) (nodes : List Node) :
    p.skipAll nodes = (nodes.map (·, Turn.missed)).foldl take p := by
  induction nodes generalizing p with
  | nil => rfl
  | cons node rest ih =>
      rw [List.map_cons, List.foldl_cons, take_missed, ← ih]
      rfl

/-- Where a run stands in the end, with all remaining nodes skipped. -/
def settle (stop : Stop) : Progress := stop.progress.skipAll stop.rest

end Progress

open Progress

/-- The first node takes a turn, and either the run goes on with the others or
it ends and skips them. -/
theorem runNodes_cons (work : Work) (cancelled : Cancellation) (node : Node)
    (rest : List Node) (p : Progress) :
    ∃ turn, TakesTurn work cancelled p.runId p.steps node turn ∧
      ((turn.ending? = none ∧ runNodes work cancelled (node :: rest) p =
          runNodes work cancelled rest (p.take (node, turn))) ∨
        (turn.ending? =
            some (runNodes work cancelled (node :: rest) p).status ∧
          settle (runNodes work cancelled (node :: rest) p) =
            (p.take (node, turn)).skipAll rest)) := by
  cases henabled : node.enabled with
  | false =>
      cases hlook : cancelled p.steps with
      | false =>
          refine ⟨_, .passed henabled hlook, .inl ⟨rfl, ?_⟩⟩
          simp [runNodes, henabled, look, hlook, take, mark, Turn.steps,
            Turn.status, Turn.issues, Turn.change]
      | true =>
          refine ⟨_, .halted henabled hlook, .inr ?_⟩
          simp [runNodes, henabled, look, hlook, take, mark, Turn.steps,
            Turn.status, Turn.issues, Turn.change, Turn.ending?, settle,
            skipAll]
  | true =>
      cases hlook : cancelled
          (p.steps ++ [Turn.change p.runId node .running]) with
      | true =>
          refine ⟨_, .withdrawn henabled hlook, .inr ?_⟩
          rw [Turn.change] at hlook
          simp [runNodes, henabled, look, hlook, take, mark, Turn.steps,
            Turn.status, Turn.issues, Turn.change, Turn.ending?, settle]
      | false =>
          cases hwork : work node with
          | error fault =>
              refine ⟨_, .failed henabled hlook hwork, .inr ?_⟩
              rw [Turn.change] at hlook
              simp [runNodes, henabled, look, hlook, hwork, workOn, fail, take,
                mark, Turn.steps, Turn.status, Turn.issues, Turn.failure,
                Turn.change, Turn.ending?, settle]
          | ok _ =>
              cases hsecond : cancelled (p.steps ++
                  [Turn.change p.runId node .running, .look false,
                   .work node.id]) with
              | true =>
                  refine ⟨_, .abandoned henabled hlook hwork hsecond, .inr ?_⟩
                  rw [Turn.change] at hlook hsecond
                  simp [runNodes, henabled, look, hlook, hsecond, hwork, workOn,
                    take, mark, Turn.steps, Turn.status, Turn.issues,
                    Turn.change, Turn.ending?, settle]
              | false =>
                  refine ⟨_, .succeeded henabled hlook hwork hsecond,
                    .inl ⟨rfl, ?_⟩⟩
                  rw [Turn.change] at hlook hsecond
                  simp [runNodes, henabled, look, hlook, hsecond, hwork, workOn,
                    take, mark, Turn.steps, Turn.status, Turn.issues,
                    Turn.change]

/-- A run is a row of turns, one for each node, and where it stands in the end
is where the turns have taken it. -/
theorem unfold_runNodes (work : Work) (cancelled : Cancellation)
    (nodes : List Node) (p : Progress) :
    ∃ turns, turns.map (·.1) = nodes ∧
      Unfolds work cancelled p.runId p.steps turns
        (runNodes work cancelled nodes p).status ∧
      settle (runNodes work cancelled nodes p) = turns.foldl take p := by
  induction nodes generalizing p with
  | nil => exact ⟨[], rfl, .finished, rfl⟩
  | cons node rest ih =>
      obtain ⟨turn, htakes, ⟨hgoes, hrun⟩ | ⟨hends, hsettle⟩⟩ :=
        runNodes_cons work cancelled node rest p
      · obtain ⟨turns, hnodes, hunfolds, hsettle⟩ := ih (p.take (node, turn))
        rw [hrun]
        exact ⟨(node, turn) :: turns, by rw [List.map_cons, hnodes],
          .next htakes hgoes hunfolds, hsettle⟩
      · refine ⟨(node, turn) :: rest.map (·, .missed),
          by simp [Function.comp_def], ?_, ?_⟩
        · exact .stop htakes hends
        · rw [hsettle, skipAll_eq_foldl, List.foldl_cons]

end Flowgraph
