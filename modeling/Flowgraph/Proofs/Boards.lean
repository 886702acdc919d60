import Flowgraph.Proofs.Mirroring

/-!
# The last word on a board

A board does not only hear one run from its begin to its end. The events of
several runs may be mixed, a run may begin twice, and a node that no run has
listed may be given a status. Whatever it hears, a board shows of a node what
was told of it last, since the last begin of a run; where nothing was told since
then, it shows what the begin has left behind, and where no run has begun, what
it has shown before.

One event says all about a node or nothing at all: an event that is no begin
gives the node its status or leaves the board as it is (`find?_notify`). The
events since the last begin are taken one by one, and `standing` is what remains
of them.
-/

namespace Flowgraph

variable {board : Board} {events since : List Event} {ids : List String}

/-! ## Begins and silent events -/

namespace Event

/-- Whether a run begins with an event. -/
def isStart : Event → Bool
  | runStarted .. => true
  | _ => false

/-- Whether an event gives no node a status. -/
def isSilent : Event → Bool
  | nodeFailed .. | runFinished .. => true
  | runStarted .. | nodeStatusChanged .. => false

end Event

/-- The last begin of a run among events: the nodes that it lists, and what has
been told since. -/
def LastStart (events : List Event) (ids : List String)
    (since : List Event) : Prop :=
  ∃ front runId, events = front ++ .runStarted runId ids :: since ∧
    ∀ event ∈ since, event.isStart = false

theorem exists_lastStart (h : ∃ event ∈ events, event.isStart) :
    ∃ ids since, LastStart events ids since := by
  induction events with
  | nil =>
      obtain ⟨event, hmem, _⟩ := h
      cases hmem
  | cons event rest ih =>
      by_cases hrest : ∃ later ∈ rest, later.isStart
      · obtain ⟨ids, since, front, runId, hsplit, hsince⟩ := ih hrest
        exact ⟨ids, since, event :: front, runId,
          congrArg (event :: ·) hsplit, hsince⟩
      · have hsince : ∀ later ∈ rest, later.isStart = false := by
          intro later hlater
          exact Bool.eq_false_iff.mpr fun hstart =>
            hrest ⟨later, hlater, hstart⟩
        obtain ⟨found, hfound, hstart⟩ := h
        rcases List.mem_cons.mp hfound with rfl | hlater
        · cases found with
          | runStarted runId ids => exact ⟨ids, rest, [], runId, rfl, hsince⟩
          | _ => cases hstart
        · exact absurd ⟨found, hlater, hstart⟩ hrest

/-! ## One event -/

namespace Board

theorem notifyAll_cons (board : Board) (event : Event) (rest : List Event) :
    board.notifyAll (event :: rest) = (board.notify event).notifyAll rest := rfl

theorem find?_notify {event : Event} (h : event.isStart = false)
    (board : Board) (id : String) :
    (board.notify event).statuses.find? id =
      (event.statusOf? id).or (board.statuses.find? id) := by
  cases event with
  | runStarted => cases h
  | nodeStatusChanged runId other status =>
      show (board.statuses.insert other status).find? id =
        (if other = id then some status else none).or _
      rw [Table.find?_insert]
      by_cases hid : id = other
      · simp [hid]
      · simp [hid, Ne.symm hid]
  | nodeFailed => rfl
  | runFinished => rfl

/-- A begin leaves nothing of what was shown. -/
theorem find?_notify_start (board : Board) (runId : String)
    (ids : List String) (id : String) :
    (board.notify (.runStarted runId ids)).statuses.find? id =
      if id ∈ ids then some .pending else none :=
  Table.find?_ofList_map ids (fun _ => NodeStatus.pending) id

theorem notify_silent {event : Event} (h : event.isSilent) (board : Board) :
    board.notify event = board := by
  cases event with
  | nodeFailed => rfl
  | runFinished => rfl
  | _ => cases h

theorem notify_comm {a b : String} (h : a ≠ b) (board : Board)
    (runA runB : String) (atA atB : NodeStatus) :
    (board.notify (.nodeStatusChanged runA a atA)).notify
        (.nodeStatusChanged runB b atB) =
      (board.notify (.nodeStatusChanged runB b atB)).notify
        (.nodeStatusChanged runA a atA) :=
  congrArg Board.mk (Table.insert_comm h atA atB)

/-! ## One event after another -/

theorem find?_notifyAll (h : ∀ event ∈ events, event.isStart = false)
    (board : Board) (id : String) :
    (board.notifyAll events).statuses.find? id =
      (standing events id).or (board.statuses.find? id) := by
  induction events generalizing board with
  | nil => rfl
  | cons event rest ih =>
      obtain ⟨hevent, hrest⟩ := List.forall_mem_cons.mp h
      have hsingle : standing [event] id = event.statusOf? id := by
        simp only [standing, history, List.filterMap_cons, List.filterMap_nil]
        cases event.statusOf? id <;> rfl
      rw [notifyAll_cons, ih hrest, find?_notify hevent,
        ← List.singleton_append, standing_append, hsingle, Option.or_assoc]

theorem find?_notifyAll_lastStart (h : LastStart events ids since)
    (board : Board) (id : String) :
    (board.notifyAll events).statuses.find? id =
      (standing since id).or (if id ∈ ids then some .pending else none) := by
  obtain ⟨front, runId, rfl, hsince⟩ := h
  rw [notifyAll_append, notifyAll_cons, find?_notifyAll hsince,
    find?_notify_start]

theorem notifyAll_filter (board : Board) (events : List Event) :
    board.notifyAll (events.filter fun event => !event.isSilent) =
      board.notifyAll events := by
  induction events generalizing board with
  | nil => rfl
  | cons event rest ih =>
      cases hsilent : event.isSilent with
      | true =>
          rw [List.filter_cons_of_neg (by simp [hsilent]), ih, notifyAll_cons,
            notify_silent hsilent]
      | false =>
          rw [List.filter_cons_of_pos (by simp [hsilent]), notifyAll_cons, ih,
            notifyAll_cons]

end Board

/-- A board that hears any events, from any runs and in any order, shows the
last status that each node was given since the last begin of a run. A node that
was given none since then is pending if the begin lists it, and is not shown if
it does not. Where no run begins, such a node keeps what the board had before.
Events that tell of failures and of ends make no difference, wherever they
stand, and neither does the order of two neighbouring changes to different
nodes. -/
theorem board_shows_last_word (board : Board) (events : List Event) :
    ((∃ event ∈ events, event.isStart) →
      ∃ ids since, LastStart events ids since) ∧
    (∀ ids since, LastStart events ids since → ∀ id,
      (board.notifyAll events).statuses.find? id =
        (standing since id).or (if id ∈ ids then some .pending else none)) ∧
    ((∀ event ∈ events, event.isStart = false) → ∀ id,
      (board.notifyAll events).statuses.find? id =
        (standing events id).or (board.statuses.find? id)) ∧
    (∀ heard : List Event,
      (heard.filter fun event => !event.isSilent) =
        (events.filter fun event => !event.isSilent) →
      board.notifyAll heard = board.notifyAll events) ∧
    ∀ (front back : List Event) (runA runB a b : String)
      (atA atB : NodeStatus), a ≠ b →
      events = front ++ .nodeStatusChanged runA a atA ::
        .nodeStatusChanged runB b atB :: back →
      board.notifyAll (front ++ .nodeStatusChanged runB b atB ::
        .nodeStatusChanged runA a atA :: back) = board.notifyAll events := by
  refine ⟨exists_lastStart, ?_, ?_, ?_, ?_⟩
  · intro ids since hstart id
    exact Board.find?_notifyAll_lastStart hstart board id
  · intro hnone id
    exact Board.find?_notifyAll hnone board id
  · intro heard hsame
    rw [← Board.notifyAll_filter, hsame, Board.notifyAll_filter]
  · intro front back runA runB a b atA atB hne hevents
    rw [hevents, Board.notifyAll_append, Board.notifyAll_append]
    simp only [Board.notifyAll_cons]
    rw [Board.notify_comm hne.symm]

/-- Two runs that are mixed: the second begins while the first is under way and
lists one of its nodes twice, and the first goes on after that. The board still
shows nodes of other graphs. -/
theorem board_shows_last_word_mixed :
    let board : Board := ⟨.ofList [("ghost", .running), ("left", .idle)]⟩
    let front : List Event :=
      [.nodeStatusChanged "zero" "ghost" .succeeded,
       .runStarted "one" ["left", "start"],
       .nodeStatusChanged "one" "start" .succeeded]
    let begun : Event := .runStarted "two" ["right", "join", "right"]
    let since : List Event :=
      [.nodeStatusChanged "one" "left" .running,
       .nodeStatusChanged "two" "right" .skipped,
       .nodeFailed "one" "left" "boom",
       .nodeStatusChanged "one" "left" .failed]
    let heard : List Event :=
      [.nodeStatusChanged "one" "left" .running,
       .nodeStatusChanged "two" "right" .skipped,
       .nodeStatusChanged "one" "left" .failed,
       .runFinished "one" .failed 7]
    let swapped : List Event :=
      [.nodeStatusChanged "two" "right" .skipped,
       .nodeStatusChanged "one" "left" .running,
       .nodeFailed "one" "left" "boom",
       .nodeStatusChanged "one" "left" .failed]
    let events := front ++ begun :: since
    (["ghost", "join", "left", "right", "start"].map
        (board.notifyAll events).statuses.find? =
      [none, some .pending, some .failed, some .skipped, none]) ∧
    (["ghost", "left", "right"].map (board.notifyAll since).statuses.find? =
      [some .running, some .failed, some .skipped]) ∧
    board.notifyAll (front ++ begun :: heard) = board.notifyAll events ∧
    board.notifyAll (front ++ begun :: swapped) = board.notifyAll events := by
  intro board front begun since heard swapped events
  obtain ⟨_, hstart, _, hsilent, hswap⟩ := board_shows_last_word board events
  obtain ⟨_, _, hnone, _⟩ := board_shows_last_word board since
  have hlast : LastStart events ["right", "join", "right"] since :=
    ⟨front, "two", rfl, by decide⟩
  refine ⟨?_, ?_, hsilent _ rfl, ?_⟩
  · rw [List.map_congr_left fun id _ => hstart _ _ hlast id]
    decide
  · rw [List.map_congr_left fun id _ => hnone (by decide) id]
    decide
  · exact hswap (front ++ [begun]) (since.drop 2) "one" "two" "left" "right" _
      _ (by decide) rfl

end Flowgraph
