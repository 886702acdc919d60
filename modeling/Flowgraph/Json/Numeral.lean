import Flowgraph.Json.Basic
import Flowgraph.Json.Malformed

/-!
# The value of a numeral

A numeral without point and exponent is a whole number as long as it fits into
64 bits, signed for a negative one; minus zero does not count as whole. Every
other numeral is a 64-bit floating-point number, found in two roundings: the
first digits, as many as make a number below `2 ^ 64`, are rounded, and the
result is multiplied or divided by a rounded power of ten. Longer numerals are
not looked at further, so the result can differ from the nearest number in its
last bit. A power of ten has at most 308 zeros; divisions by greater ones are
done in several steps.
-/

namespace Flowgraph

/-- The parts of a numeral as written. -/
structure Numeral where
  negative : Bool
  whole : List Char
  fraction : Option (List Char)
  exponent : Option Int
  deriving DecidableEq

namespace Numeral

/-- Appends digits to a number below `2 ^ 64` until the next one does not fit,
and tells how many are left over. -/
def absorb (n : Nat) : List Char → Nat × Nat
  | [] => (n, 0)
  | digit :: rest =>
    let next := Nat.ofDigitChars 10 [digit] n
    if next < UInt64.size then absorb next rest else (n, rest.length + 1)

/-- The rank of a power of ten. -/
def power (n : Nat) : BinaryFormat.double.Rank :=
  BinaryFormat.double.nearest (Nat.pow 10 n) 1

/-- The most zeros a power of ten of the format has. -/
def greatestPower : Nat := 308

/-- Divides by a power of ten, in steps of at most `greatestPower` zeros. Three
full steps leave nothing of a number below `2 ^ 64`. -/
def divide (rank : BinaryFormat.double.Rank) (zeros : Nat) :
    BinaryFormat.double.Rank :=
  let f := BinaryFormat.double
  let steps := (zeros - 1) / greatestPower
  let reduce rank := f.quotient rank (power greatestPower)
  let reduced := Nat.repeat reduce (min steps 3) rank
  f.quotient reduced (power (zeros - greatestPower * steps))

/-- The rank of `n * 10 ^ exponent`. -/
def scale (n : Nat) (exponent : Int) :
    Except Malformed BinaryFormat.double.Rank :=
  let f := BinaryFormat.double
  let rank := f.nearest n 1
  if exponent < 0 then .ok (divide rank exponent.natAbs)
  else if rank = 0 then .ok 0
  else if greatestPower < exponent.natAbs then .error .numberOutOfRange
  else
    let scaled := f.product rank (power exponent.natAbs)
    if f.infinite ≤ scaled.val then .error .numberOutOfRange else .ok scaled

/-- The number a numeral stands for. -/
def value (numeral : Numeral) : Except Malformed Number :=
  let (n, dropped) := absorb 0 numeral.whole
  match numeral.fraction, numeral.exponent, dropped with
  | none, none, 0 =>
    if !numeral.negative then .ok (.integer n)
    else if 0 < n ∧ n ≤ UInt64.size / 2 then .ok (.integer (-(n : Int)))
    else .ok (.double ⟨true, BinaryFormat.double.nearest n 1⟩)
  | fraction, exponent, _ => do
    let digits := fraction.getD []
    let (n, left) := absorb n digits
    let places : Int := digits.length - left
    let rank ← scale n (dropped - places + exponent.getD 0)
    .ok (.double ⟨numeral.negative, rank⟩)

end Numeral

end Flowgraph
