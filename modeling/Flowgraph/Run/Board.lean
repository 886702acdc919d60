import Flowgraph.Run.Event

/-!
# Boards and channels

A board shows the present status of every node: it follows the events of runs.
A channel passes events on until its receiver is gone.
-/

namespace Flowgraph

/-- The statuses that a board shows. -/
structure Board where
  statuses : Statuses := .empty
  deriving DecidableEq

namespace Board

/-- Takes an event: the begin of a run replaces everything that was shown. -/
def notify (board : Board) : Event → Board
  | .runStarted _ nodes => ⟨.ofList (nodes.map fun id => (id, .pending))⟩
  | .nodeStatusChanged _ node status => ⟨board.statuses.insert node status⟩
  | .nodeFailed .. | .runFinished .. => board

/-- Takes events one after another. -/
def notifyAll (board : Board) (events : List Event) : Board :=
  events.foldl notify board

end Board

/-- A channel with the events that were delivered. -/
structure Channel where
  isOpen : Bool := true
  delivered : List Event := []

namespace Channel

/-- Passes an event on, unless nobody receives it. -/
def notify (channel : Channel) (event : Event) : Channel :=
  if channel.isOpen then
    { channel with delivered := channel.delivered ++ [event] }
  else channel

/-- The receiver goes away. -/
def close (channel : Channel) : Channel := { channel with isOpen := false }

end Channel

end Flowgraph
