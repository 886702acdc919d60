import Flowgraph.Number.Binary

/-!
# Shortest decimals

A number of a binary format is written with the fewest decimal digits that read
back as the same number. The numbers that round to it form an interval, whose
ends belong to it exactly when its significand is even. The decimal grids
`10 ^ k` are tried from coarse to fine; the first one with a point in the
interval gives the fewest digits. If a grid has a point there at all, one of
the two points next to the number itself is there, so only those are looked at;
of two the nearer one is taken. An exact tie is a decision of whoever writes
the number.

All comparisons are made on whole numbers of *quarter steps*, so that the ends
of the interval, which lie half a spacing away, are whole too.
-/

namespace Flowgraph

/-- `digits * 10 ^ exponent`. -/
structure Decimal where
  digits : Nat
  exponent : Int
  deriving DecidableEq

/-- Which of two equally near decimals is taken. -/
inductive Tie where
  | even
  | up

namespace BinaryFormat

variable (f : BinaryFormat)

/-- The decimals that round to one value, in quarter steps: the value and the
two ends of its interval, and whether the ends belong to it. -/
structure Interval where
  low : Nat
  value : Nat
  high : Nat
  closed : Bool

/-- The interval of a rank. Below a power of two the spacing is half of what it
is above, except where all spacings are one step. -/
def interval (rank : Nat) : Interval :=
  let m := f.significand rank
  let half := 2 <<< f.shift rank
  let value := 2 * m * half
  let below := if m = f.span ∧ 0 < f.shift rank then half / 2 else half
  ⟨value - below, value, value + half, m % 2 = 0⟩

/-- Whether the point `d` of a grid lies in the interval. A grid point is `d`
times `unit` quarter steps, and the interval is scaled by `scale`. -/
def Interval.holds (i : Interval) (scale unit d : Nat) : Bool :=
  if i.closed then i.low * scale ≤ d * unit && d * unit ≤ i.high * scale
  else i.low * scale < d * unit && d * unit < i.high * scale

/-- The point of the grid `10 ^ k` for an interval, if there is one. -/
def gridPoint? (tie : Tie) (i : Interval) (k : Int) : Option Nat :=
  let scale := Nat.pow 10 (-k).toNat
  let unit := Nat.pow 10 k.toNat <<< (f.lowest + 2)
  let below := i.value * scale / unit
  let above := below + 1
  match i.holds scale unit below, i.holds scale unit above with
  | false, false => none
  | true, false => some below
  | false, true => some above
  | true, true =>
    let twice := 2 * (i.value * scale)
    let middle := (below + above) * unit
    if twice < middle then some below
    else if middle < twice then some above
    else match tie with
      | .even => some (if below % 2 = 0 then below else above)
      | .up => some above

/-- Tries `count + 1` grids, `10 ^ k` first and then finer ones. -/
def shortestFrom (tie : Tie) (i : Interval) (k : Int) : Nat → Decimal
  | 0 => ⟨(f.gridPoint? tie i k).getD 0, k⟩
  | count + 1 =>
    match f.gridPoint? tie i k with
    | some d => ⟨d, k⟩
    | none => shortestFrom tie i (k - 1) count

/-- The shortest decimal of a finite positive rank. A grid coarser than all
digits of the whole part has no point near the value, and a grid finer than
half the spacing always has one. -/
def shortest (tie : Tie) (rank : Nat) : Decimal :=
  let whole := (Nat.toDigits 10 (f.steps rank >>> f.lowest)).length
  let places := f.lowest + 1 - f.shift rank
  f.shortestFrom tie (f.interval rank) whole (whole + places)

end BinaryFormat

end Flowgraph
