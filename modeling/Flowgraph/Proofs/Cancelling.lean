import Flowgraph.Proofs.Dependencies

/-!
# Cancelling a run earlier or later

A run learns of a cancellation by looking, and of nothing else from outside. So
the row of its turns is a function of the answers that its looks get, one after
another: `rowAsked` computes it, and `Unfolds.eq_rowAsked` says that there is no
other row. Which course the cancellation takes besides does not matter.

Two runs of the same nodes are then two rows that can be held side by side. As
long as neither is cancelled they get the same answers and take the same turns.
If one of them is cancelled at an earlier look, its row is cut there: the turn
in which it looks ends as cancelled and does no work that the other one does
not, and all turns behind it are missed.
-/

namespace Flowgraph

variable {work : Work} {cancelled cancelled' : Cancellation} {runId : String}
  {answers first second : Nat → Bool} {n : Nat} {node : Node}
  {turns turns' : List (Node × Turn)} {stamp stamp' : Stamp}
  {order : List Node} {outcome outcome' : Outcome}

/-! ## The answers that a run gets -/

/-- The answer that a step got, if it is a look. -/
def RunStep.look? : RunStep → Option Bool
  | .look answer => some answer
  | _ => none

/-- The answers that the looks of a run got, in order. -/
def Outcome.looks (outcome : Outcome) : List Bool :=
  outcome.steps.filterMap RunStep.look?

/-- The cancellation that answers each look by the number of looks before it. -/
def Cancellation.asked (answers : Nat → Bool) : Cancellation :=
  fun steps => answers (steps.filterMap RunStep.look?).length

/-- What is seen from the look of a number on is what the looks are answered. -/
def Gives (answers : Nat → Bool) (n : Nat) (seen : List Bool) : Prop :=
  ∀ k answer, seen[k]? = some answer → answers (n + k) = answer

@[simp] theorem gives_nil : Gives answers n [] := by
  simp [Gives]

@[simp] theorem gives_cons {answer : Bool} {seen : List Bool} :
    Gives answers n (answer :: seen) ↔
      answers n = answer ∧ Gives answers (n + 1) seen := by
  constructor
  · intro h
    refine ⟨h 0 answer rfl, fun k other hk => ?_⟩
    rw [Nat.add_assoc, Nat.add_comm 1]
    exact h (k + 1) other hk
  · rintro ⟨hfirst, hrest⟩ k other hk
    cases k with
    | zero => exact hfirst.trans (Option.some.inj hk)
    | succ k =>
        rw [Nat.add_comm k, ← Nat.add_assoc]
        exact hrest k other hk

theorem gives_append {seen later : List Bool} :
    Gives answers n (seen ++ later) ↔
      Gives answers n seen ∧ Gives answers (n + seen.length) later := by
  induction seen generalizing n with
  | nil => simp
  | cons answer seen ih =>
      rw [List.cons_append, gives_cons, gives_cons, ih, and_assoc,
        List.length_cons, Nat.add_assoc, Nat.add_comm 1]

/-- Whatever is seen, some answers give it. -/
theorem exists_gives (seen : List Bool) :
    ∃ answers, Gives answers 0 seen := by
  refine ⟨fun k => seen[k]?.getD false, fun k answer hk => ?_⟩
  simp [hk]

/-- Where no cancellation is seen, it might as well never happen. -/
theorem gives_false {seen : List Bool} (h : true ∉ seen) :
    Gives (fun _ => false) n seen := by
  intro k answer hk
  cases answer with
  | false => rfl
  | true => exact absurd (List.mem_of_getElem? hk) h

/-- The looks among truthful steps get the answers that are asked for. -/
theorem Truthful.gives {sofar steps : List RunStep}
    (h : Truthful (.asked answers) sofar steps) :
    Gives answers (sofar.filterMap RunStep.look?).length
      (steps.filterMap RunStep.look?) := by
  induction steps generalizing sofar with
  | nil => exact gives_nil
  | cons step rest ih =>
      cases step with
      | look answer =>
          have hrest := ih h.2
          rw [List.filterMap_append, List.length_append] at hrest
          exact gives_cons.mpr ⟨h.1, hrest⟩
      | event _ | work _ =>
          have hrest := ih h
          rw [List.filterMap_append, List.length_append] at hrest
          exact hrest

/-! ## The row of turns as a function of the answers -/

/-- The answers that the looks of a turn get. -/
def Turn.looks : Turn → List Bool
  | passed | failed _ => [false]
  | halted | withdrawn => [true]
  | abandoned => [false, true]
  | succeeded => [false, false]
  | missed => []

theorem filterMap_look (turns : List (Node × Turn)) :
    (rowSteps runId turns).filterMap RunStep.look? =
      turns.flatMap (·.2.looks) := by
  induction turns with
  | nil => rfl
  | cons turn rest ih =>
      rw [rowSteps_cons, List.filterMap_append, ih, List.flatMap_cons]
      rcases turn with ⟨node, _ | _ | _ | _ | _ | _ | _⟩ <;> rfl

section

variable (work : Work) (answers : Nat → Bool)

/-- The turn of a node whose first look is the one of a number. -/
def turnAsked (n : Nat) (node : Node) : Turn :=
  if node.enabled then
    if answers n then .withdrawn
    else match work node with
      | .error fault => .failed fault
      | .ok () => if answers (n + 1) then .abandoned else .succeeded
  else if answers n then .halted
  else .passed

/-- The turns of nodes, with the look of a number as the first one. -/
def rowAsked (n : Nat) : List Node → List (Node × Turn)
  | [] => []
  | node :: rest =>
    let turn := turnAsked work answers n node
    (node, turn) ::
      if turn.ending?.isSome then rest.map (·, .missed)
      else rowAsked (n + turn.looks.length) rest

end

theorem rowAsked_of_ends {rest : List Node}
    (h : (turnAsked work answers n node).ending?.isSome) :
    rowAsked work answers n (node :: rest) =
      (node, turnAsked work answers n node) :: rest.map (·, .missed) := by
  rw [rowAsked, if_pos h]

theorem rowAsked_of_goesOn {rest : List Node}
    (h : (turnAsked work answers n node).ending? = none) :
    rowAsked work answers n (node :: rest) =
      (node, turnAsked work answers n node) ::
        rowAsked work answers
          (n + (turnAsked work answers n node).looks.length) rest := by
  rw [rowAsked, if_neg (by simp [h])]

theorem TakesTurn.eq_turnAsked {sofar : List RunStep} {turn : Turn}
    (h : TakesTurn work cancelled runId sofar node turn)
    (hgives : Gives answers n turn.looks) :
    turn = turnAsked work answers n node := by
  cases h <;> simp_all [turnAsked, Turn.looks]

/-- A row of turns is the one that its answers make. -/
theorem Unfolds.eq_rowAsked {sofar : List RunStep} {status : RunStatus}
    (h : Unfolds work cancelled runId sofar turns status)
    (hgives : Gives answers n (turns.flatMap (·.2.looks))) :
    turns = rowAsked work answers n (turns.map (·.1)) := by
  induction h generalizing n with
  | finished => rfl
  | next takes goesOn _ ih =>
      rw [List.flatMap_cons, gives_append] at hgives
      obtain rfl := takes.eq_turnAsked hgives.1
      rw [List.map_cons, rowAsked_of_goesOn goesOn, ← ih hgives.2]
  | stop takes ends =>
      rw [List.flatMap_cons, gives_append] at hgives
      obtain rfl := takes.eq_turnAsked hgives.1
      rw [List.map_cons, rowAsked_of_ends (Option.isSome_of_eq_some ends)]
      simp [Function.comp_def]

/-- The status of a run is what the first turn says that ends it. -/
theorem Unfolds.status_eq {sofar : List RunStep} {status : RunStatus}
    (h : Unfolds work cancelled runId sofar turns status) :
    status = (turns.findSome? (·.2.ending?)).getD .succeeded := by
  induction h with
  | finished => rfl
  | next _ goesOn _ ih => rw [List.findSome?_cons, goesOn, ← ih]
  | stop _ ends => rw [List.findSome?_cons, ends, Option.getD_some]

namespace IsRun

theorem looks_eq (h : IsRun work cancelled stamp order turns outcome) :
    outcome.looks = turns.flatMap (·.2.looks) := by
  rw [Outcome.looks, h.steps_eq, List.filterMap_cons_none rfl,
    List.filterMap_append, filterMap_look]
  exact List.append_nil _

theorem eq_rowAsked (h : IsRun work cancelled stamp order turns outcome)
    (hgives : Gives answers 0 outcome.looks) :
    turns = rowAsked work answers 0 order := by
  rw [h.looks_eq] at hgives
  rw [← h.nodes_eq]
  exact h.unfolds.eq_rowAsked hgives

theorem gives (h : IsRun work (.asked answers) stamp order turns outcome) :
    Gives answers 0 outcome.looks :=
  h.truthful.gives

theorem status_eq (h : IsRun work cancelled stamp order turns outcome) :
    outcome.execution.status =
      (turns.findSome? (·.2.ending?)).getD .succeeded :=
  h.unfolds.status_eq

end IsRun

/-! ## Two rows side by side -/

/-- One token is cancelled at an earlier look than another one, or at the same
one; it may have been cancelled where the other one never is. -/
def NoLater (first second : Nat → Bool) : Prop :=
  ∀ n, second n = true → ∃ m ≤ n, first m = true

theorem NoLater.eq_false (h : NoLater first second)
    (hbefore : ∀ m < n, first m = false) (hnow : first n = false) :
    second n = false := by
  rw [← Bool.not_eq_true]
  intro hseen
  obtain ⟨m, hm, hfirst⟩ := h n hseen
  rcases Nat.lt_or_eq_of_le hm with hlt | rfl
  · exact Bool.false_ne_true ((hbefore m hlt).symm.trans hfirst)
  · exact Bool.false_ne_true (hnow.symm.trans hfirst)

/-- A row that is cut from another one: they are the same up to a turn that is
cancelled in the first row, with no more work than in the second. -/
inductive CutFrom : List (Node × Turn) → List (Node × Turn) → Prop
  | whole (turns : List (Node × Turn)) : CutFrom turns turns
  | cut {node : Node} {turn turn' : Turn} {rest : List Node}
      {turns : List (Node × Turn)} (ends : turn.ending? = some .cancelled)
      (works : turn.works = true → turn'.works = true) :
      CutFrom ((node, turn) :: rest.map (·, .missed)) ((node, turn') :: turns)
  | next (turn : Node × Turn) {turns turns' : List (Node × Turn)}
      (rest : CutFrom turns turns') : CutFrom (turn :: turns) (turn :: turns')

/-- A node takes the same turn whichever of two tokens it looks at, or the
earlier one cancels it. -/
theorem turnAsked_cases (work : Work) (node : Node)
    (h : NoLater first second) (hbefore : ∀ m < n, first m = false) :
    ((turnAsked work first n node).ending? = some .cancelled ∧
        ((turnAsked work first n node).works = true →
          (turnAsked work second n node).works = true)) ∨
      (turnAsked work second n node = turnAsked work first n node ∧
        ((turnAsked work first n node).ending? = none →
          ∀ m < n + (turnAsked work first n node).looks.length,
            first m = false)) := by
  cases hnow : first n with
  | true =>
      left
      cases henabled : node.enabled <;>
        simp [turnAsked, henabled, hnow, Turn.ending?, Turn.works]
  | false =>
      have hnow' := h.eq_false hbefore hnow
      have hbefore' : ∀ m < n + 1, first m = false :=
        Nat.forall_lt_succ_right.mpr ⟨hbefore, hnow⟩
      cases henabled : node.enabled with
      | false =>
          right
          simpa [turnAsked, henabled, hnow, hnow', Turn.looks] using
            fun _ => hbefore'
      | true =>
          cases hwork : work node with
          | error fault =>
              right
              simp [turnAsked, henabled, hnow, hnow', hwork, Turn.ending?]
          | ok _ =>
              cases hlast : first (n + 1) with
              | true =>
                  left
                  cases hlast' : second (n + 1) <;>
                    simp [turnAsked, henabled, hnow, hnow', hwork, hlast,
                      hlast', Turn.ending?, Turn.works]
              | false =>
                  right
                  have hlast' := h.eq_false hbefore' hlast
                  have hbefore'' : ∀ m < n + 2, first m = false :=
                    Nat.forall_lt_succ_right.mpr ⟨hbefore', hlast⟩
                  simpa [turnAsked, henabled, hnow, hnow', hwork, hlast, hlast',
                    Turn.looks] using fun _ => hbefore''

/-- Under an earlier cancellation the row of turns is cut. -/
theorem cutFrom_rowAsked (work : Work) (nodes : List Node)
    (h : NoLater first second) (hbefore : ∀ m < n, first m = false) :
    CutFrom (rowAsked work first n nodes) (rowAsked work second n nodes) := by
  induction nodes generalizing n with
  | nil => exact .whole _
  | cons node rest ih =>
      rcases turnAsked_cases work node h hbefore with
        ⟨hends, hworks⟩ | ⟨hsame, hlater⟩
      · rw [rowAsked_of_ends (Option.isSome_of_eq_some hends), rowAsked]
        exact .cut hends hworks
      · cases hends : (turnAsked work first n node).ending? with
        | none =>
            rw [rowAsked_of_goesOn hends, rowAsked_of_goesOn (hsame ▸ hends),
              hsame]
            exact .next _ (ih (hlater hends))
        | some status =>
            rw [rowAsked_of_ends (Option.isSome_of_eq_some hends),
              rowAsked_of_ends (hsame ▸ Option.isSome_of_eq_some hends), hsame]
            exact .whole _

namespace CutFrom

/-- What is done in a row that is cut is done first in the other one too. -/
theorem works_prefix (h : CutFrom turns turns') :
    (turns.filter (·.2.works)).map (·.1.id) <+:
      (turns'.filter (·.2.works)).map (·.1.id) := by
  induction h with
  | whole _ => exact List.prefix_rfl
  | next turn _ ih =>
      rw [List.filter_cons, List.filter_cons]
      split
      · exact (List.prefix_cons_inj _).mpr ih
      · exact ih
  | @cut _ turn _ _ _ _ works =>
      rw [List.filter_cons, filter_works_missed, List.filter_cons]
      cases hworks : turn.works with
      | false => exact List.nil_prefix
      | true =>
          rw [if_pos rfl, if_pos (works hworks)]
          exact (List.prefix_cons_inj _).mpr List.nil_prefix

/-- What succeeds in a row that is cut succeeds in the other one too. -/
theorem mem_succeeded (h : CutFrom turns turns')
    (hmem : (node, .succeeded) ∈ turns) : (node, .succeeded) ∈ turns' := by
  induction h with
  | whole _ => exact hmem
  | next _ _ ih =>
      rcases List.mem_cons.mp hmem with rfl | hmem
      · exact List.mem_cons_self
      · exact List.mem_cons_of_mem _ (ih hmem)
  | cut ends _ =>
      rcases List.mem_cons.mp hmem with heq | hmem
      · cases heq
        cases ends
      · simp at hmem

end CutFrom

/-! ## What runs do under a cancellation -/

/-- Two runs come to the same, their ids and times aside. -/
structure SameResult (outcome outcome' : Outcome) : Prop where
  status_eq : outcome.execution.status = outcome'.execution.status
  statuses_eq : outcome.statuses = outcome'.statuses
  issues_eq : outcome.issues = outcome'.issues
  performed_eq : outcome.performed = outcome'.performed

/-- How runs obey a cancellation, whatever their ids and times are. -/
structure ObeysCancellation
    (run : Stamp → Cancellation → Except RunFault Outcome) : Prop where
  returns : ∀ stamp cancelled, ∃ outcome, run stamp cancelled = .ok outcome
  /-- Only the answers of the looks matter, one after another. -/
  asks : ∀ stamp cancelled, ∃ answers,
    run stamp (.asked answers) = run stamp cancelled
  /-- An earlier cancellation shortens a run. -/
  shortens : ∀ {first second : Nat → Bool} {stamp stamp' : Stamp}
    {outcome outcome' : Outcome}, NoLater first second →
    run stamp (.asked first) = .ok outcome →
    run stamp' (.asked second) = .ok outcome' →
    outcome.performed <+: outcome'.performed ∧
      ∀ id, outcome.statusOf id = some .succeeded →
        outcome'.statusOf id = some .succeeded
  /-- No work is done behind a look that has seen the cancellation. -/
  rests : ∀ {stamp : Stamp} {cancelled : Cancellation} {outcome : Outcome},
    run stamp cancelled = .ok outcome → ∀ {before after : List RunStep},
      outcome.steps = before ++ .look true :: after →
        after.filterMap RunStep.work? = []
  /-- A run that is cancelled from the first look on does nothing. -/
  atOnce : ∀ {answers : Nat → Bool} {stamp : Stamp} {outcome : Outcome},
    answers 0 = true → run stamp (.asked answers) = .ok outcome →
      outcome.performed = [] ∧ outcome.execution.status = .cancelled
  /-- A cancellation that no look has seen changes nothing. -/
  tooLate : ∀ {cancelled : Cancellation} {stamp stamp' : Stamp}
    {outcome outcome' : Outcome}, run stamp cancelled = .ok outcome →
    run stamp' .never = .ok outcome' → true ∉ outcome.looks →
      SameResult outcome outcome'

namespace IsRun

/-- Runs whose looks get the same answers are the same row of turns. -/
theorem turns_eq (h : IsRun work cancelled stamp order turns outcome)
    (h' : IsRun work cancelled' stamp' order turns' outcome')
    (hgives : Gives answers 0 outcome.looks)
    (hgives' : Gives answers 0 outcome'.looks) : turns = turns' :=
  (h.eq_rowAsked hgives).trans (h'.eq_rowAsked hgives').symm

/-- The same turns come to the same. -/
theorem sameResult (h : IsRun work cancelled stamp order turns outcome)
    (h' : IsRun work cancelled' stamp' order turns outcome') :
    SameResult outcome outcome' where
  status_eq := h.status_eq.trans h'.status_eq.symm
  statuses_eq := h.statuses_eq.trans h'.statuses_eq.symm
  issues_eq := h.issues_eq.trans h'.issues_eq.symm
  performed_eq := by
    rw [h.performed_eq, h'.performed_eq, filterMap_work, filterMap_work]

/-- What courses leave behind under one id and one time is the same too. -/
theorem outcome_eq {course course' : Course}
    (h : IsRun work cancelled stamp order turns (course.outcome stamp))
    (h' : IsRun work cancelled' stamp order turns (course'.outcome stamp)) :
    course.outcome stamp = course'.outcome stamp := by
  have hresult := h.sameResult h'
  have hstatus : course.status = course'.status := hresult.status_eq
  have hstatuses : course.statuses = course'.statuses := hresult.statuses_eq
  have hissues : course.issues = course'.issues := hresult.issues_eq
  have hsteps :
      (course.outcome stamp).steps = (course'.outcome stamp).steps := by
    rw [h.steps_eq, h'.steps_eq, hresult.status_eq]
  rw [Course.outcome, hstatus, hstatuses, hissues,
    List.append_inj_left' hsteps rfl]
  rfl

/-- Without a cancellation no look sees one. -/
theorem not_mem_looks (h : IsRun work .never stamp order turns outcome) :
    true ∉ outcome.looks := by
  intro hseen
  obtain ⟨k, hk⟩ := List.getElem?_of_mem hseen
  -- What never cancels a run answers every look with no.
  have hgives : Gives (fun _ => false) 0 outcome.looks := h.gives
  exact Bool.false_ne_true (hgives k true hk)

theorem cutFrom (h : IsRun work (.asked first) stamp order turns outcome)
    (h' : IsRun work (.asked second) stamp' order turns' outcome')
    (hlater : NoLater first second) : CutFrom turns turns' := by
  rw [h.eq_rowAsked h.gives, h'.eq_rowAsked h'.gives]
  exact cutFrom_rowAsked work order hlater
    fun _ hm => absurd hm (Nat.not_lt_zero _)

theorem performed_prefix
    (h : IsRun work cancelled stamp order turns outcome)
    (h' : IsRun work cancelled' stamp' order turns' outcome')
    (hcut : CutFrom turns turns') :
    outcome.performed <+: outcome'.performed := by
  rw [h.performed_eq, h'.performed_eq, filterMap_work, filterMap_work]
  exact hcut.works_prefix

theorem succeeded_of_cutFrom
    (h : IsRun work cancelled stamp order turns outcome)
    (h' : IsRun work cancelled' stamp' order turns' outcome')
    (hnodup : (order.map (·.id)).Nodup) (hcut : CutFrom turns turns')
    {id : String} (hstatus : outcome.statusOf id = some .succeeded) :
    outcome'.statusOf id = some .succeeded := by
  obtain ⟨node, turn, hturn, rfl, hleft⟩ := h.exists_turn hnodup hstatus
  cases turn <;> cases hleft
  exact h'.statusOf_eq hnodup (hcut.mem_succeeded hturn)

/-- The shape of a run tells where the work ends: at the first look that sees
the cancellation. -/
theorem rests (h : IsRun work cancelled stamp order turns outcome)
    (hnodup : (order.map (·.id)).Nodup) {before after : List RunStep}
    (hsteps : outcome.steps = before ++ .look true :: after) :
    after.filterMap RunStep.work? = [] := by
  have hseen : .look true ∈ outcome.steps := by
    rw [hsteps]
    exact List.mem_append_right _ List.mem_cons_self
  obtain ⟨i, hshape⟩ := h.exists_shape hnodup
  cases hshape.ends with
  | finished _ unseen => exact absurd hseen unseen
  | failed _ unseen => exact absurd hseen unseen
  | cancelled _ seen =>
      obtain ⟨front, back, hsplit, hfirst, _, _, hidle⟩ := seen
      have heq := hsteps.symm.trans hsplit
      obtain ⟨part, rfl⟩ := exists_eq_append_of_not_mem hfirst heq
      rw [List.append_assoc, List.append_cancel_left_eq] at heq
      cases part with
      | nil => rw [(List.cons.inj heq).2, hidle]
      | cons _ part =>
          rw [List.cons_append] at heq
          rw [← (List.cons.inj heq).2, List.filterMap_append,
            List.append_eq_nil_iff] at hidle
          exact hidle.2

/-- The first node sees the cancellation, and no node is worked on. -/
theorem atOnce (h : IsRun work (.asked answers) stamp order turns outcome)
    (hne : order ≠ []) (hnow : answers 0 = true) :
    outcome.performed = [] ∧ outcome.execution.status = .cancelled := by
  obtain ⟨node, rest, rfl⟩ := List.exists_cons_of_ne_nil hne
  have hends : (turnAsked work answers 0 node).ending? = some .cancelled := by
    cases henabled : node.enabled <;>
      simp [turnAsked, henabled, hnow, Turn.ending?]
  have hworks : (turnAsked work answers 0 node).works = false := by
    cases henabled : node.enabled <;>
      simp [turnAsked, henabled, hnow, Turn.works]
  have hturns := h.eq_rowAsked h.gives
  rw [rowAsked_of_ends (Option.isSome_of_eq_some hends)] at hturns
  refine ⟨?_, ?_⟩
  · rw [h.performed_eq, filterMap_work, hturns, List.filter_cons, hworks,
      filter_works_missed]
    rfl
  · rw [h.status_eq, hturns, List.findSome?_cons, hends, Option.getD_some]

end IsRun

/-- Runs of nodes with different ids obey a cancellation if there are any. -/
theorem obeysCancellation_course (hnodup : (order.map (·.id)).Nodup)
    (hne : order ≠ []) (work : Work) :
    ObeysCancellation fun stamp cancelled =>
      .ok ((Course.of stamp.id order work cancelled).outcome stamp) where
  returns _ _ := ⟨_, rfl⟩
  asks stamp cancelled := by
    obtain ⟨turns, hrun⟩ := isRun_outcome work cancelled stamp order
    obtain ⟨answers, hgives⟩ := exists_gives
      ((Course.of stamp.id order work cancelled).outcome stamp).looks
    obtain ⟨turns', hrun'⟩ := isRun_outcome work (.asked answers) stamp order
    obtain rfl := hrun.turns_eq hrun' hgives hrun'.gives
    exact ⟨answers, congrArg Except.ok (hrun'.outcome_eq hrun)⟩
  shortens {first second stamp stamp' _ _} hlater h h' := by
    obtain rfl := Except.ok.inj h
    obtain rfl := Except.ok.inj h'
    obtain ⟨turns, hrun⟩ := isRun_outcome work (.asked first) stamp order
    obtain ⟨turns', hrun'⟩ := isRun_outcome work (.asked second) stamp' order
    have hcut := hrun.cutFrom hrun' hlater
    exact ⟨hrun.performed_prefix hrun' hcut,
      fun _ => hrun.succeeded_of_cutFrom hrun' hnodup hcut⟩
  rests {stamp cancelled _} h := by
    obtain rfl := Except.ok.inj h
    obtain ⟨turns, hrun⟩ := isRun_outcome work cancelled stamp order
    exact hrun.rests hnodup
  atOnce {answers stamp _} hnow h := by
    obtain rfl := Except.ok.inj h
    obtain ⟨turns, hrun⟩ := isRun_outcome work (.asked answers) stamp order
    exact hrun.atOnce hne hnow
  tooLate {cancelled stamp stamp' _ _} h h' hunseen := by
    obtain rfl := Except.ok.inj h
    obtain rfl := Except.ok.inj h'
    obtain ⟨turns, hrun⟩ := isRun_outcome work cancelled stamp order
    obtain ⟨turns', hrun'⟩ := isRun_outcome work .never stamp' order
    obtain rfl := hrun.turns_eq hrun' (gives_false hunseen)
      (gives_false hrun'.not_mem_looks)
    exact hrun.sameResult hrun'

/-- A run of a plan that validation hands out obeys a cancellation: what it does
under an earlier one is the begin of what it does under a later one. -/
theorem cancelling_earlier_shortens_run {validated nodes : List Node}
    {edges : List Edge} {plan : Plan}
    (h : (validate validated edges).plan = some plan)
    (hfound : ∀ id ∈ plan.nodesInOrder, ∃ node ∈ nodes, node.id = id)
    (work : Work) : ObeysCancellation fun stamp cancelled =>
      runPlan stamp nodes plan work cancelled := by
  obtain ⟨order, horder⟩ := exists_resolve_eq_ok hfound
  have hids : order.map (·.id) = plan.nodesInOrder :=
    (resolve_eq_ok.mp horder).1
  have hne : order ≠ [] := by
    rintro rfl
    exact nodesInOrder_ne_nil h hids.symm
  have hcourse : (fun stamp cancelled =>
      runPlan stamp nodes plan work cancelled) = fun stamp cancelled =>
        .ok ((Course.of stamp.id order work cancelled).outcome stamp) := by
    funext stamp cancelled
    exact runPlan_eq_ok.mpr ⟨order, horder, rfl⟩
  rw [hcourse]
  exact obeysCancellation_course (hids ▸ nodesInOrder_nodup h) hne work

/-- Runs of the diamond with a token that is cancelled during the work of the
first node, and with one that is cancelled during the work of the second. -/
theorem cancelling_earlier_shortens_run_diamond : ∃ plan outcome outcome',
    diamond.validate.plan = some plan ∧
      runPlan ⟨"run", .start, .start, 0⟩ diamond.nodes plan
        (Simulation.work {}) (.asked fun n => 1 ≤ n) = .ok outcome ∧
      runPlan ⟨"again", .start, .start, 0⟩ diamond.nodes plan
        (Simulation.work {}) (.asked fun n => 3 ≤ n) = .ok outcome' ∧
      outcome.performed = ["start"] ∧ outcome'.performed = ["start", "right"] ∧
      outcome.performed <+: outcome'.performed ∧
      ObeysCancellation fun stamp cancelled =>
        runPlan stamp diamond.nodes plan (Simulation.work {}) cancelled := by
  have horder : diamond.validate.plan.map (·.nodesInOrder) =
      some ["start", "right", "left", "join"] := by decide
  obtain ⟨plan, hplan, hids⟩ := Option.map_eq_some_iff.mp horder
  have hfound : ∀ id ∈ plan.nodesInOrder,
      ∃ node ∈ diamond.nodes, node.id = id := by
    rw [hids]
    decide
  have hobeys :=
    cancelling_earlier_shortens_run hplan hfound (Simulation.work {})
  have hlater : NoLater (fun n => 1 ≤ n) (fun n => 3 ≤ n) := by
    intro n hn
    have hn : 3 ≤ n := of_decide_eq_true hn
    exact ⟨n, Nat.le_refl n, decide_eq_true (by omega)⟩
  obtain ⟨outcome, hrun⟩ :=
    hobeys.returns ⟨"run", .start, .start, 0⟩ (.asked fun n => 1 ≤ n)
  obtain ⟨outcome', hrun'⟩ :=
    hobeys.returns ⟨"again", .start, .start, 0⟩ (.asked fun n => 3 ≤ n)
  have hshort : (diamond.validate.plan.map fun plan =>
      (runPlan ⟨"run", .start, .start, 0⟩ diamond.nodes plan
        (Simulation.work {}) (.asked fun n => 1 ≤ n)).map (·.performed)) =
      some (.ok ["start"]) := by rfl
  have hlong : (diamond.validate.plan.map fun plan =>
      (runPlan ⟨"again", .start, .start, 0⟩ diamond.nodes plan
        (Simulation.work {}) (.asked fun n => 3 ≤ n)).map (·.performed)) =
      some (.ok ["start", "right"]) := by rfl
  rw [hplan, Option.map_some, hrun] at hshort
  rw [hplan, Option.map_some, hrun'] at hlong
  exact ⟨plan, outcome, outcome', hplan, hrun, hrun',
    Except.ok.inj (Option.some.inj hshort),
    Except.ok.inj (Option.some.inj hlong),
    (hobeys.shortens hlater hrun hrun').1, hobeys⟩

end Flowgraph
