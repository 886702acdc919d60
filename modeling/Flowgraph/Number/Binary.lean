/-!
# Binary floating point, exactly

A binary format has finitely many non-negative values. Put in increasing order
they are numbered from zero, and that number, the *rank*, says everything about
a value: the order of ranks is the order of values, the next representable
value is the next rank, and the rank right after the greatest finite value
stands for infinity. A number of the format is then a sign and a rank.

Every value is a whole number of *least steps*, the least positive value of the
format. So all arithmetic here is arithmetic on natural numbers: an operation
forms the exact quotient of two of them and rounds it once, to the nearest
value, a half going to the even rank.
-/

namespace Flowgraph

/-- A binary floating-point format: `precision` significant bits, least steps of
`2 ^ -lowest`, and `binades` runs of `2 ^ (precision - 1)` ranks below
infinity. -/
structure BinaryFormat where
  precision : Nat
  lowest : Nat
  binades : Nat

namespace BinaryFormat

/-- The 64-bit format: 53 significant bits, least step `2 ^ -1074`. -/
def double : BinaryFormat := ⟨53, 1074, 2047⟩

/-- The 32-bit format: 24 significant bits, least step `2 ^ -149`. -/
def single : BinaryFormat := ⟨24, 149, 255⟩

variable (f : BinaryFormat)

/-- How many ranks share one spacing. -/
def span : Nat := 1 <<< (f.precision - 1)

/-- The rank of infinity: the first one past every finite value. -/
def infinite : Nat := f.binades * f.span

/-- A rank of the format. -/
abbrev Rank := Fin (f.infinite + 1)

/-- The significant bits of the value of a rank. Below the first full run they
are the rank itself, above it the leading bit is always set. -/
def significand (rank : Nat) : Nat :=
  if rank < f.span then rank else rank % f.span + f.span

/-- The spacing at a rank is `2 ^ shift` least steps. -/
def shift (rank : Nat) : Nat := rank / f.span - 1

/-- The value of a rank, counted in least steps. -/
def steps (rank : Nat) : Nat := f.significand rank <<< f.shift rank

end BinaryFormat

/-- The whole number nearest to `num / den`, a half going to the even one. -/
def nearestQuotient (num den : Nat) : Nat :=
  let quotient := num / den
  let twice := 2 * (num % den)
  if twice < den ∨ (twice = den ∧ quotient % 2 = 0) then quotient
  else quotient + 1

namespace BinaryFormat

variable (f : BinaryFormat)

/-- The rank of the value nearest to `num / den`, infinity for a number that
rounds past the greatest finite value. When the rounded significand runs over
its top, the sum carries into the next run by itself. -/
def nearest (num den : Nat) : f.Rank :=
  let exact := num <<< f.lowest
  let shift := (exact / den).log2 - (f.precision - 1)
  let rank := shift * f.span + nearestQuotient exact (den <<< shift)
  ⟨min rank f.infinite, Nat.lt_succ_of_le (Nat.min_le_right ..)⟩

/-- The rank of the rounded product of two values. -/
def product (a b : f.Rank) : f.Rank :=
  f.nearest (f.steps a * f.steps b) (1 <<< (2 * f.lowest))

/-- The rank of the rounded quotient of two values, the second not zero. -/
def quotient (a b : f.Rank) : f.Rank := f.nearest (f.steps a) (f.steps b)

end BinaryFormat

/-- A number of a binary format. Zero has both signs, as the formats have it.

There is no value that is not a number, because nothing here can give one. The
numbers of a graph, temperatures among them, are read from texts; no numeral of
JSON stands for such a value, and rounding a product or a quotient of natural
numbers, the divisor not being zero, gives a rank. A temperature that was set to
it without a text is outside of this library. It would be out of range, and a
saved document would have `null` in its place, as it has for infinity. -/
structure Binary (f : BinaryFormat) where
  negative : Bool
  rank : f.Rank
  deriving DecidableEq

/-- A 64-bit number. -/
abbrev Double := Binary .double

/-- A 32-bit number. -/
abbrev Single := Binary .single

namespace Binary

variable {f : BinaryFormat}

/-- Whether the number is finite. -/
def isFinite (x : Binary f) : Bool := x.rank.val < f.infinite

/-- The place of a number in the order of the format: the two zeros share it. -/
def order (x : Binary f) : Int :=
  if x.negative then -(x.rank.val : Int) else x.rank.val

/-- Equality as numbers: the two zeros are one. -/
def same (x y : Binary f) : Bool := x.order == y.order

/-- The number nearest to a whole number. -/
def ofInt (f : BinaryFormat) (n : Int) : Binary f :=
  ⟨n < 0, f.nearest n.natAbs 1⟩

/-- The nearest number of another format. -/
def convert (g : BinaryFormat) (x : Binary f) : Binary g :=
  ⟨x.negative, g.nearest (f.steps x.rank) (1 <<< f.lowest)⟩

end Binary

end Flowgraph
