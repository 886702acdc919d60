import Flowgraph.Proofs.Places
import Mathlib.Logic.Relation

/-!
# Loops that serve a queue

Sorting and walking by place are loops of one kind: as long as the queue is not
empty its first place leaves it and is served, which may put other places behind
those that wait. Nothing bounds the number of rounds. `Safe` says what there is
to say about such a loop: it never faults, no place enters the queue twice, and
it ends after no more rounds than there are places.

Most of that follows from any invariant of the loop that keeps the log of the
queue right and lets no round go wrong, `Safe.of_invariant`. The bound is read
off the log: what has left the queue is part of what has entered it, which has
no repeats and lies inside the tables.
-/

namespace Flowgraph

namespace Placed

variable {α β : Type}

/-! ## Rounds -/

/-- A state of a loop: what it works on, the places in its queue, and a log of
those that have entered the queue and of those that have left it. -/
structure Queued (β : Type) where
  books : β
  queue : List Nat
  entered : List Nat
  left : List Nat

/-- Puts a place into the queue. -/
def Queued.push (s : Queued β) (place : Nat) : Queued β :=
  { s with queue := s.queue ++ [place], entered := s.entered ++ [place] }

/-- A round: the first place in the queue leaves it and is served. If there is
none, the loop is over. -/
def round? (serve : Queued β → Nat → Except Fault (Queued β))
    (s : Queued β) : Option (Except Fault (Queued β)) :=
  match s.queue with
  | [] => none
  | place :: queue =>
    some (serve { s with queue, left := s.left ++ [place] } place)

/-- Rounds without a fault lead from one state to another. -/
abbrev GetsTo (serve : Queued β → Nat → Except Fault (Queued β)) :
    Queued β → Queued β → Prop :=
  Relation.ReflTransGen fun s s' => round? serve s = some (.ok s')

/-- The log of a queue is right, and what has entered the queue lies inside
tables of a given size and entered it once. -/
structure Logged (size : Nat) (s : Queued β) : Prop where
  in_turn : s.entered = s.left ++ s.queue
  inside : ∀ place ∈ s.entered, place < size
  once : s.entered.Nodup

/-- A loop over tables of a given size that is safe and ends. Whatever state it
has got to, no more places have left the queue than there are, the next round is
without a fault, and the loop gets on to the end. -/
structure Safe (size : Nat) (serve : Queued β → Nat → Except Fault (Queued β))
    (first last : Queued β) : Prop where
  logged : ∀ s, GetsTo serve first s → Logged size s
  bounded : ∀ s, GetsTo serve first s → s.left.length ≤ size
  faultless : ∀ s, GetsTo serve first s → s.queue ≠ [] →
    ∃ s', round? serve s = some (.ok s')
  goes_on : ∀ s, GetsTo serve first s → GetsTo serve s last
  ended : last.queue = []

/-! ## Sorting -/

/-- What sorting works on: a count for each place, and the ids in order. -/
structure Tally (α : Type) where
  counts : List Nat
  order : List α

/-- One less than the count at a place. -/
def lower (place : Nat) : (count : Nat) → Except Fault Nat
  | 0 => .error (.spent place)
  | count + 1 => .ok count

/-- Lowers the count at a place. When it comes to zero the place enters the
queue. -/
def release (s : Queued (Tally α)) (place : Nat) :
    Except Fault (Queued (Tally α)) := do
  let counts ← amend s.books.counts place (lower place)
  let lowered := { s with books := { s.books with counts } }
  if (← entry counts place) = 0 then return lowered.push place
  return lowered

namespace Tables

/-- The state in which sorting begins. -/
def unsorted (tables : Tables α) : Except Fault (Queued (Tally α)) := do
  let starts ← tables.starts
  return ⟨⟨tables.inDegree, []⟩, starts, starts, []⟩

/-- Serves a place while sorting: its id is next in the order, and what it feeds
is released. -/
def sort (tables : Tables α) (s : Queued (Tally α)) (place : Nat) :
    Except Fault (Queued (Tally α)) := do
  let id ← entry tables.ids place
  let order := s.books.order ++ [id]
  (← entry tables.successors place).foldlM release
    { s with books := { s.books with order } }

end Tables

/-! ## Walking -/

/-- Marks a place, which enters the queue. -/
def mark (s : Queued (List Bool)) (place : Nat) :
    Except Fault (Queued (List Bool)) := do
  let books ← amend s.books place fun _ => .ok true
  return Queued.push { s with books } place

/-- Marks a place unless it is marked. -/
def visit (s : Queued (List Bool)) (place : Nat) :
    Except Fault (Queued (List Bool)) := do
  if ← entry s.books place then return s
  mark s place

namespace Tables

/-- The state in which walking begins: the starts are marked. -/
def unwalked (tables : Tables α) : Except Fault (Queued (List Bool)) := do
  (← tables.starts).foldlM mark
    ⟨.replicate tables.ids.length false, [], [], []⟩

/-- Serves a place while walking: what it feeds is visited. -/
def walk (tables : Tables α) (s : Queued (List Bool)) (place : Nat) :
    Except Fault (Queued (List Bool)) := do
  (← entry tables.successors place).foldlM visit s

end Tables

/-! ## Safety from an invariant -/

variable {serve : Queued β → Nat → Except Fault (Queued β)} {size : Nat}
  {first last : Queued β}

theorem Logged.length_left_le {s : Queued β} (h : Logged size s) :
    s.left.length ≤ size := by
  have hle : s.entered.length ≤ (List.range size).length :=
    h.once.length_le_of_subset fun place hplace =>
      List.mem_range.mpr (h.inside place hplace)
  rw [h.in_turn, List.length_append, List.length_range] at hle
  omega

/-- Where every round of a state with an invariant goes well and keeps the
invariant, all states that a loop gets to have it. -/
theorem getsTo_invariant {I : Queued β → Prop}
    (hround : ∀ s, I s → s.queue = [] ∨
      ∃ s', round? serve s = some (.ok s') ∧ I s')
    (hfirst : I first) {s : Queued β} (h : GetsTo serve first s) : I s := by
  induction h with
  | refl => exact hfirst
  | tail _ hnext ih =>
      rcases hround _ ih with hnil | ⟨s', hsome, hI⟩
      · rw [round?, hnil] at hnext
        cases hnext
      · rw [hnext] at hsome
        cases hsome
        exact hI

/-- All ways of a loop are one way, so from each state of it one gets to the
end. -/
theorem getsTo_last (hlast : GetsTo serve first last) (hended : last.queue = [])
    {s : Queued β} (h : GetsTo serve first s) : GetsTo serve s last := by
  have hunique : Relator.RightUnique fun s s' : Queued β =>
      round? serve s = some (.ok s') := by
    intro s t t' ht ht'
    rw [ht] at ht'
    cases ht'
    rfl
  rcases Relation.ReflTransGen.total_of_right_unique hunique h hlast with
    hon | hback
  · exact hon
  · rcases hback.cases_head with heq | ⟨s', hnext, _⟩
    · rw [heq]
    · rw [round?, hended] at hnext
      cases hnext

/-- A loop whose invariant keeps the log right and never faults is safe, if it
gets to an end at all. -/
theorem Safe.of_invariant {I : Queued β → Prop}
    (hlog : ∀ s, I s → Logged size s)
    (hround : ∀ s, I s → s.queue = [] ∨
      ∃ s', round? serve s = some (.ok s') ∧ I s')
    (hfirst : I first) (hlast : GetsTo serve first last)
    (hended : last.queue = []) : Safe size serve first last where
  logged s hs := hlog s (getsTo_invariant hround hfirst hs)
  bounded s hs := (hlog s (getsTo_invariant hround hfirst hs)).length_left_le
  faultless s hs hne := by
    obtain ⟨s', hsome, _⟩ :=
      (hround s (getsTo_invariant hround hfirst hs)).resolve_left hne
    exact ⟨s', hsome⟩
  goes_on s hs := getsTo_last hlast hended hs
  ended := hended

end Placed

end Flowgraph
