import Flowgraph.Command
import Flowgraph.Proofs.Dependencies
import Flowgraph.Proofs.Extent

/-!
# What the commands come to

For a document that can be loaded there is nothing between a command and the
report of its graph: validating succeeds if there are no errors, and running is
refused if there are some. A graph without errors has a plan whose ids are those
of its nodes, so the run begins, and nothing can cancel it.

Simulated work fails for some ids, of which it does not matter how often they
are given or whether there are such nodes. `Leaves` says what comes of that: if
no enabled node is among them all is well, and otherwise the first one of those
that are, in the order of the plan, is the one that ends the run. The turns of
the run tell the one from the other, and everything that is printed is made of
these turns.
-/

namespace Flowgraph

variable {simulation : Simulation} {stamp : Stamp} {runId : String}
  {sofar : List RunStep} {turns : List (Node × Turn)} {order : List Node}
  {statuses : List NodeStatus} {issues : List Issue} {status : RunStatus}
  {outcome : Outcome} {plan : Plan} {node : Node}

/-! ## The condition -/

/-- A node whose simulated work would be done and would fail. -/
def Simulation.Breaks (simulation : Simulation) (node : Node) : Prop :=
  node.enabled = true ∧ node.id ∈ simulation.failNodes

/-- What simulated work leaves of nodes in their order: a status for each of
them, the issues, and the status of the run. -/
inductive Leaves (simulation : Simulation) :
    List Node → List NodeStatus → List Issue → RunStatus → Prop
  | whole {order : List Node}
      (sound : ∀ node ∈ order, ¬ simulation.Breaks node) :
      Leaves simulation order (order.map Node.settled) [] .succeeded
  | broken {front : List Node} {node : Node} {rest : List Node}
      (sound : ∀ earlier ∈ front, ¬ simulation.Breaks earlier)
      (breaks : simulation.Breaks node) :
      Leaves simulation (front ++ node :: rest)
        (front.map Node.settled ++ .failed :: rest.map fun _ => .skipped)
        [Turn.failure node (.simulated node.id)] .failed

/-- The printed status of a node. -/
def statusEntry (id : String) (status : NodeStatus) : Json :=
  .object [("nodeId", .string id), ("status", status.toJson)]

/-- What the run command shows of a run, and what was run: all nodes of the
graph, each once, in the order of its plan. -/
structure Shows (graph : Graph) (simulation : Simulation) (stamp : Stamp)
    (output : Output) (order : List Node) (statuses : List NodeStatus)
    (issues : List Issue) (status : RunStatus) : Prop where
  planned : graph.validate.plan.map (·.nodesInOrder) = some (order.map (·.id))
  perm : order.Perm graph.nodes
  distinct : (order.map (·.id)).Nodup
  leaves : Leaves simulation order statuses issues status
  terminal : List.Forall₂ (fun node status => status.isTerminal = true ∧
    (node.enabled = false → status = .skipped)) order statuses
  succeeded_iff :
    status = .succeeded ↔ ∀ node ∈ graph.nodes, ¬ simulation.Breaks node
  exit_eq : output.exit = if status = .succeeded then 0 else 1
  printed_eq : output.printed = .value (.object
    [("execution", ((Execution.start stamp.id stamp.startedAt).finish status
        stamp.finishedAt stamp.durationMs).toJson.canonical),
     ("issues", .array (issues.map (·.toJson.canonical))),
     ("statuses", .array
        (List.zipWith statusEntry (order.map (·.id)) statuses))])

/-! ## What simulated work leaves -/

theorem Simulation.work_eq_ok :
    simulation.work node = .ok () ↔ node.id ∉ simulation.failNodes := by
  rw [Simulation.work]
  split <;> simp_all

theorem Simulation.work_eq_error {fault : WorkFault} :
    simulation.work node = .error fault ↔
      node.id ∈ simulation.failNodes ∧ fault = .simulated node.id := by
  rw [Simulation.work]
  split <;> simp_all [eq_comm]

theorem GoesOn.sound {turn : Node × Turn} (h : GoesOn simulation.work turn) :
    ¬ simulation.Breaks turn.1 := by
  intro ⟨henabled, hid⟩
  cases h with
  | passed enabled => exact absurd (enabled.symm.trans henabled) (by decide)
  | succeeded _ result => exact Simulation.work_eq_ok.mp result hid

theorem statuses_of_goesOn (h : ∀ turn ∈ turns, GoesOn simulation.work turn) :
    turns.map (·.2.status) = (turns.map (·.1)).map Node.settled := by
  rw [List.map_map]
  exact List.map_congr_left fun turn hturn => (h turn hturn).status_eq

/-- Where nothing cancels a run, a turn that ends it is that of a node whose
work fails. -/
theorem TakesTurn.breaks {turn : Turn}
    (h : TakesTurn simulation.work .never runId sofar node turn)
    (hends : turn.ending? = some status) : simulation.Breaks node ∧
      turn = .failed (.simulated node.id) ∧ status = .failed := by
  cases h with
  | passed => cases hends
  | succeeded => cases hends
  | halted _ look => cases look
  | withdrawn _ look => cases look
  | abandoned _ _ _ second => cases second
  | failed enabled _ result =>
      obtain ⟨hid, rfl⟩ := Simulation.work_eq_error.mp result
      exact ⟨⟨enabled, hid⟩, rfl, (Option.some.inj hends).symm⟩

theorem Ends.leaves (h : Ends simulation.work .never runId sofar turns status) :
    Leaves simulation (turns.map (·.1)) (turns.map (·.2.status))
      (turns.flatMap fun turn => turn.2.issues turn.1) status := by
  cases h with
  | through hgoes =>
      rw [statuses_of_goesOn hgoes, issues_of_goesOn hgoes]
      refine .whole ?_
      simp only [List.forall_mem_map]
      exact fun turn hturn => (hgoes turn hturn).sound
  | @early front node turn rest _ hgoes htakes hends =>
      obtain ⟨hbreaks, rfl, rfl⟩ := htakes.breaks hends
      have hsound : ∀ earlier ∈ front.map (·.1),
          ¬ simulation.Breaks earlier := by
        simp only [List.forall_mem_map]
        exact fun turn hturn => (hgoes turn hturn).sound
      have hnodes : (rest.map (·, Turn.missed)).map (·.1) = rest := by
        simp [Function.comp_def]
      have hstatuses : (rest.map (·, Turn.missed)).map (·.2.status) =
          rest.map fun _ => .skipped := List.map_map
      simp only [List.map_append, List.map_cons, List.flatMap_append,
        List.flatMap_cons, hnodes, hstatuses, statuses_of_goesOn hgoes,
        issues_of_goesOn hgoes, issues_missed]
      exact .broken hsound hbreaks

namespace Leaves

theorem terminal (h : Leaves simulation order statuses issues status) :
    List.Forall₂ (fun node status => status.isTerminal = true ∧
      (node.enabled = false → status = .skipped)) order statuses := by
  have hsettled (nodes : List Node) :
      List.Forall₂ (fun node status => status.isTerminal = true ∧
        (node.enabled = false → status = .skipped)) nodes
          (nodes.map Node.settled) := by
    refine List.forall₂_map_right_iff.mpr (List.forall₂_same.mpr ?_)
    intro node _
    exact ⟨isTerminal_settled node, fun hdisabled => by
      simp [Node.settled, hdisabled]⟩
  cases h with
  | whole => exact hsettled _
  | @broken front node rest _ breaks =>
      refine List.rel_append (hsettled front) (.cons ⟨rfl, ?_⟩ ?_)
      · intro hdisabled
        exact absurd (breaks.1.symm.trans hdisabled) (by decide)
      · refine List.forall₂_map_right_iff.mpr (List.forall₂_same.mpr ?_)
        exact fun _ _ => ⟨rfl, fun _ => rfl⟩

theorem succeeded_iff (h : Leaves simulation order statuses issues status) :
    status = .succeeded ↔ ∀ node ∈ order, ¬ simulation.Breaks node := by
  cases h with
  | whole sound => exact ⟨fun _ => sound, fun _ => rfl⟩
  | @broken front node rest _ breaks =>
      constructor
      · intro hstatus
        cases hstatus
      · intro hsound
        exact absurd breaks
          (hsound node (List.mem_append_right _ List.mem_cons_self))

theorem tail (h : Leaves simulation (node :: order) statuses issues status)
    (hsound : ¬ simulation.Breaks node) : ∃ later,
      statuses = node.settled :: later ∧
        Leaves simulation order later issues status := by
  generalize hnodes : node :: order = nodes at h
  cases h with
  | whole sound =>
      subst hnodes
      exact ⟨_, rfl, .whole (List.forall_mem_cons.mp sound).2⟩
  | @broken front last rest sound breaks =>
      cases front with
      | nil =>
          obtain ⟨rfl, -⟩ := List.cons.inj hnodes
          exact absurd breaks hsound
      | cons first front =>
          obtain ⟨rfl, rfl⟩ := List.cons.inj hnodes
          exact ⟨_, rfl, .broken (List.forall_mem_cons.mp sound).2 breaks⟩

theorem of_breaks (h : Leaves simulation (node :: order) statuses issues status)
    (hbreaks : simulation.Breaks node) :
    statuses = .failed :: order.map (fun _ => .skipped) ∧
      issues = [Turn.failure node (.simulated node.id)] ∧
      status = .failed := by
  generalize hnodes : node :: order = nodes at h
  cases h with
  | whole sound =>
      subst hnodes
      exact absurd hbreaks (sound node List.mem_cons_self)
  | @broken front last rest sound breaks =>
      cases front with
      | nil =>
          obtain ⟨rfl, rfl⟩ := List.cons.inj hnodes
          exact ⟨rfl, rfl, rfl⟩
      | cons first front =>
          obtain ⟨rfl, -⟩ := List.cons.inj hnodes
          exact absurd hbreaks (sound _ List.mem_cons_self)

end Leaves

/-! ## What is printed -/

theorem canonical_statusEntry (id : String) (status : NodeStatus) :
    (statusEntry id status).canonical = statusEntry id status := by
  rw [statusEntry, NodeStatus.toJson]
  rfl

/-- The statuses are printed as the turns left them. -/
theorem statusList_eq {work : Work} {cancelled : Cancellation}
    (h : IsRun work cancelled stamp order turns outcome)
    (hnodup : (order.map (·.id)).Nodup)
    (hplan : plan.nodesInOrder = order.map (·.id)) :
    Command.statusList plan outcome = List.zipWith statusEntry
      (order.map (·.id)) (turns.map (·.2.status)) := by
  rw [Command.statusList, hplan, ← h.map_id, List.map_map,
    List.zipWith_map, List.zipWith_self]
  refine List.map_congr_left fun turn hturn => ?_
  rw [Function.comp_apply, h.statusOf_eq hnodup hturn]
  rfl

theorem summary_eq (plan : Plan) (outcome : Outcome) :
    Command.summary plan outcome = .object
      [("execution", outcome.execution.toJson.canonical),
       ("issues", .array (outcome.issues.map (·.toJson.canonical))),
       ("statuses", .array
          ((Command.statusList plan outcome).map Json.canonical))] := by
  have hstatuses : ¬ "statuses" < "execution" := by decide
  have hissues : "issues" < "statuses" := by decide
  have hexecution : ¬ "issues" < "execution" := by decide
  simp only [Command.summary, Json.canonical, Json.canonicalMembers,
    Json.canonicalItems_eq, insertEntry, hstatuses, hissues, hexecution,
    if_true, if_false, String.reduceEq, List.map_map, Function.comp_def]

theorem execution_eq {nodes : List Node} {work : Work}
    {cancelled : Cancellation}
    (h : runPlan stamp nodes plan work cancelled = .ok outcome) :
    outcome.execution = (Execution.start stamp.id stamp.startedAt).finish
      outcome.execution.status stamp.finishedAt stamp.durationMs := by
  obtain ⟨order, _, rfl⟩ := runPlan_eq_ok.mp h
  rfl

theorem finish_eq {report : Report} (h : report.plan = some plan)
    (outcome : Outcome) : Command.finish report (.ok outcome) = {
      exit := if outcome.execution.status = .succeeded then 0 else 1
      printed := .value (Command.summary plan outcome)
      messages := outcome.events.filterMap Command.progressLine? } := by
  simp only [Command.finish, h]

/-! ## The commands -/

variable {text : String} {d : Document}

theorem load_eq_ok (h : Document.ofText text = .ok d) (file : String) :
    Command.load file (.ok text) = .ok (d.graph, d.graph.validate) := by
  rw [Command.load, h]

theorem hasErrors_iff {report : Report} :
    report.hasErrors = true ↔ report.errors ≠ 0 := by
  rw [Report.hasErrors, decide_eq_true_eq, Nat.pos_iff_ne_zero]

theorem validate_command_eq (h : Document.ofText text = .ok d)
    (file : String) :
    Command.validate file (.ok text) = {
      exit := if d.graph.validate.errors = 0 then 0 else 1
      printed := .value d.graph.validate.toJson } := by
  rw [Command.validate, load_eq_ok h]
  simp only [hasErrors_iff, ite_not]

theorem prepare_eq (h : Document.ofText text = .ok d) (file : String) :
    Command.prepare file (.ok text) =
      if d.graph.validate.errors = 0 then .ok (d.graph, d.graph.validate)
      else .error (Command.refuse d.graph.validate) := by
  rw [Command.prepare, load_eq_ok h]
  show (if d.graph.validate.hasErrors then _ else _) = _
  simp only [hasErrors_iff, ite_not]
  rfl

/-- The nodes that are found for the ids of a plan are those of the graph. -/
theorem order_perm_nodes {graph : Graph}
    (hplan : graph.validate.plan = some plan)
    (hids : order.map (·.id) = plan.nodesInOrder)
    (hfound : ∀ node ∈ order, findNode? graph.nodes node.id = some node) :
    order.Perm graph.nodes := by
  have hperm := nodesInOrder_perm hplan
  have hnodup : (order.map (·.id)).Nodup := hids ▸ nodesInOrder_nodup hplan
  have hgraph : (graph.nodes.map (·.id)).Nodup :=
    hperm.nodup_iff.mp (nodesInOrder_nodup hplan)
  refine (List.perm_ext_iff_of_nodup (.of_map _ hnodup)
    (.of_map _ hgraph)).mpr fun node => ?_
  refine ⟨fun hnode => findNode?_mem (hfound node hnode), fun hnode => ?_⟩
  have hid : node.id ∈ order.map (·.id) :=
    hids ▸ hperm.mem_iff.mpr (List.mem_map_of_mem hnode)
  obtain ⟨other, hother, hsame⟩ := List.mem_map.mp hid
  obtain rfl := List.inj_on_of_nodup_map hgraph
    (findNode?_mem (hfound other hother)) hnode hsame
  exact hother

theorem run_eq_finish (h : Document.ofText text = .ok d)
    (herrors : d.graph.validate.errors = 0) (file : String) (stamp : Stamp)
    (simulation : Simulation) :
    Command.run stamp file (.ok text) simulation =
      Command.finish d.graph.validate (runReport stamp d.graph
        d.graph.validate simulation.work .never) := by
  rw [Command.run, prepare_eq h, if_pos herrors]

/-- A graph without errors is run, and this is what is shown. -/
theorem exists_shows (h : Document.ofText text = .ok d)
    (herrors : d.graph.validate.errors = 0) (file : String) (stamp : Stamp)
    (simulation : Simulation) : ∃ order statuses issues status,
      Shows d.graph simulation stamp
        (Command.run stamp file (.ok text) simulation)
        order statuses issues status := by
  obtain ⟨plan, hplan⟩ : ∃ plan, d.graph.validate.plan = some plan :=
    Option.isSome_iff_exists.mp (plan_isSome_iff.mpr herrors)
  -- a planned run begins unless some id of the plan is that of no node
  have hfound : ∀ id ∈ plan.nodesInOrder,
      ∃ node ∈ d.graph.nodes, node.id = id :=
    fun id hid => List.mem_map.mp ((nodesInOrder_perm hplan).mem_iff.mp hid)
  obtain ⟨outcome, hrun⟩ :=
    exists_runPlan_eq_ok hfound simulation.work .never stamp
  obtain ⟨order, turns, hids, hnodes, hisRun⟩ := isRun_of_runPlan hrun
  have hnodup : (order.map (·.id)).Nodup := hids ▸ nodesInOrder_nodup hplan
  have hperm := order_perm_nodes hplan hids hnodes
  have hleaves : Leaves simulation order (turns.map (·.2.status))
      outcome.issues outcome.execution.status := by
    have hrow := hisRun.unfolds.ends.leaves
    rwa [hisRun.nodes_eq, ← hisRun.issues_eq] at hrow
  have hreport : runReport stamp d.graph d.graph.validate simulation.work
      .never = .ok outcome :=
    (runReport_eq hplan).trans hrun
  have hprinted : (Command.statusList plan outcome).map Json.canonical =
      List.zipWith statusEntry (order.map (·.id))
        (turns.map (·.2.status)) := by
    rw [statusList_eq hisRun hnodup hids.symm, List.map_zipWith]
    simp only [canonical_statusEntry]
  rw [run_eq_finish h herrors, hreport, finish_eq hplan]
  exact ⟨order, _, _, _, {
    planned := by rw [hplan, Option.map_some, hids]
    perm := hperm
    distinct := hnodup
    leaves := hleaves
    terminal := hleaves.terminal
    succeeded_iff := by simp only [hleaves.succeeded_iff, hperm.mem_iff]
    exit_eq := rfl
    printed_eq := by rw [summary_eq, hprinted, ← execution_eq hrun] }⟩

/-- What validating and running come to for a document that can be loaded. -/
theorem commands_follow_report (h : Document.ofText text = .ok d)
    (file : String) (stamp : Stamp) (simulation : Simulation) :
    (Command.validate file (.ok text)).printed =
        .value d.graph.validate.toJson ∧
      (Command.validate file (.ok text)).exit =
        (if d.graph.validate.errors = 0 then 0 else 1) ∧
      (d.graph.validate.errors ≠ 0 ↔ Command.prepare file (.ok text) =
        .error (Command.refuse d.graph.validate)) ∧
      (d.graph.validate.errors ≠ 0 →
        Command.run stamp file (.ok text) simulation =
            Command.refuse d.graph.validate ∧
          (Command.refuse d.graph.validate).exit = 1 ∧
          (Command.refuse d.graph.validate).printed = .nothing) ∧
      (d.graph.validate.errors = 0 → ∃ order statuses issues status,
        Shows d.graph simulation stamp
          (Command.run stamp file (.ok text) simulation)
          order statuses issues status) := by
  have hprepare := prepare_eq h file
  refine ⟨?_, ?_, ?_, fun herrors => ⟨?_, rfl, rfl⟩, fun herrors =>
    exists_shows h herrors file stamp simulation⟩
  · rw [validate_command_eq h]
  · rw [validate_command_eq h]
  · rw [hprepare]
    split <;> simp_all
  · rw [Command.run, hprepare, if_neg herrors]

/-- A text with a chain of three nodes, the last of which is disabled. -/
def chainText : String :=
  "\x7b\"schemaVersion\":1,\"exportedAt\":\"1970-01-01T00:00:00Z\"," ++
    "\"graph\":\x7b\"nodes\":[" ++
    "\x7b\"id\":\"end\",\"config\":\x7b\"kind\":\"output\"\x7d," ++
    "\"enabled\":false\x7d," ++
    "\x7b\"id\":\"say\",\"config\":\x7b\"kind\":\"text\"\x7d\x7d," ++
    "\x7b\"id\":\"go\",\"config\":\x7b\"kind\":\"trigger\"\x7d\x7d]," ++
    "\"edges\":[\x7b\"id\":\"e\",\"source\":\x7b\"nodeId\":\"go\"\x7d," ++
    "\"target\":\x7b\"nodeId\":\"say\"\x7d\x7d," ++
    "\x7b\"id\":\"f\",\"source\":\x7b\"nodeId\":\"say\"\x7d," ++
    "\"target\":\x7b\"nodeId\":\"end\"\x7d\x7d]\x7d\x7d"

/-- The document of the chain. -/
def chain : Document where
  schemaVersion := 1
  exportedAt := .start
  graph :=
    { nodes :=
        [{ id := "end", enabled := false, config := .output },
         { id := "say", config := .text {} },
         { id := "go", config := .trigger }]
      edges :=
        [⟨"e", ⟨"go", none⟩, ⟨"say", none⟩⟩,
         ⟨"f", ⟨"say", none⟩, ⟨"end", none⟩⟩] }
  editorState := .null

/-- A run of the chain. Its disabled node and one that is not there are to fail,
and the second node is named twice. -/
def chainRun : Output :=
  Command.run ⟨"run", .start, .start, 0⟩ "chain.json" (.ok chainText)
    { failNodes := ["say", "end", "nobody", "say"] }

/-- What is printed of it. -/
def chainSummary : Json :=
  .object
    [("execution", .object
        [("durationMs", .nat 0), ("finishedAt", Moment.start.toJson),
         ("id", .string "run"), ("startedAt", Moment.start.toJson),
         ("status", .string "failed")]),
     ("issues", .array [.object
        [("code", .string "node_failed"), ("kind", .string "runtime"),
         ("message", .string "simulated failure in node 'say'"),
         ("nodeId", .string "say"), ("severity", .string "error")]]),
     ("statuses", .array
        [statusEntry "go" .succeeded, statusEntry "say" .failed,
         statusEntry "end" .skipped])]

theorem commands_follow_report_chain :
    Document.ofText chainText = .ok chain ∧ chainRun.exit = 1 ∧
      chainRun.printed = .value chainSummary ∧
      ∃ order issue, order.map (·.id) = ["go", "say", "end"] ∧
        Shows chain.graph { failNodes := ["say", "end", "nobody", "say"] }
          ⟨"run", .start, .start, 0⟩ chainRun order
          [.succeeded, .failed, .skipped] [issue] .failed := by
  have htext : Document.ofText chainText = .ok chain := by decide +kernel
  have hids : chain.graph.validate.plan.map (·.nodesInOrder) =
      some ["go", "say", "end"] := by decide
  obtain ⟨_, _, _, _, hrun⟩ := commands_follow_report htext "chain.json"
    ⟨"run", .start, .start, 0⟩ { failNodes := ["say", "end", "nobody", "say"] }
  obtain ⟨order, statuses, issues, status, hshows⟩ := hrun (by decide)
  have horder : order.map (·.id) = ["go", "say", "end"] :=
    Option.some.inj (hshows.planned.symm.trans hids)
  have henabled : ∀ node ∈ order, node.enabled = (node.id != "end") := by
    intro node hnode
    have hchain : ∀ node ∈ chain.graph.nodes,
        node.enabled = (node.id != "end") := by decide
    exact hchain node (hshows.perm.mem_iff.mp hnode)
  obtain ⟨go, _, rfl, hgo, hrest⟩ := List.map_eq_cons_iff.mp horder
  obtain ⟨say, last, rfl, hsay, hlast⟩ := List.map_eq_cons_iff.mp hrest
  have hgoes : go.enabled = true := by simp [henabled, hgo]
  have hworks : say.enabled = true := by simp [henabled, hsay]
  obtain ⟨_, rfl, hleaves⟩ := hshows.leaves.tail fun hbreaks =>
    absurd hbreaks.2 (by rw [hgo]; decide)
  obtain ⟨rfl, rfl, rfl⟩ := hleaves.of_breaks ⟨hworks, by rw [hsay]; decide⟩
  obtain ⟨_, rfl, -⟩ := List.map_eq_singleton_iff.mp hlast
  rw [Node.settled, if_pos hgoes] at hshows
  refine ⟨htext, hshows.exit_eq, hshows.printed_eq.trans ?_, _, _, horder,
    hshows⟩
  rw [horder, Turn.failure, hsay]
  rfl

end Flowgraph
