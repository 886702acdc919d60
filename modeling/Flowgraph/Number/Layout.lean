import Flowgraph.Number.Shortest

/-!
# How numbers are laid out

The digits of a number come from the shortest decimal; where the point goes,
when an exponent is written and what a whole number looks like is one record
per place where numbers are written.
-/

namespace Flowgraph

/-- The decisions of a written number. A number `0.d₁d₂… * 10 ^ point` is
written without an exponent when `positional` allows the place of its point;
`wholePoint` says whether a whole number then ends in a point and a zero. -/
structure Layout where
  tie : Tie
  positional : Int → Bool
  wholePoint : Bool

namespace Layout

/-- 64-bit numbers of a document: no exponent from `1e-5` up to `1e16`. -/
def double : Layout := ⟨.even, fun point => -4 ≤ point && point ≤ 16, true⟩

/-- 32-bit numbers of a document: no exponent from `1e-6` up to `1e13`. -/
def single : Layout := ⟨.even, fun point => -5 ≤ point && point ≤ 13, true⟩

/-- Numbers in a sentence: never an exponent, and whole numbers have no
point. -/
def sentence : Layout := ⟨.up, fun _ => true, false⟩

/-- What a whole number ends in. -/
def wholeEnd (layout : Layout) : List Char :=
  if layout.wholePoint then ['.', '0'] else []

/-- Digits with the point in its place and zeros where digits are missing. -/
def spell (layout : Layout) (digits : List Char) (point : Int) : List Char :=
  let n := digits.length
  if point ≤ 0 then '0' :: '.' :: List.replicate (-point).toNat '0' ++ digits
  else if n ≤ point.toNat then
    digits ++ List.replicate (point.toNat - n) '0' ++ layout.wholeEnd
  else digits.take point.toNat ++ '.' :: digits.drop point.toNat

/-- One digit before the point, the others behind it, and a signed exponent. -/
def spellExponent (digits : List Char) (point : Int) : List Char :=
  let exponent := point - 1
  let fraction := match digits.drop 1 with
    | [] => []
    | rest => '.' :: rest
  digits.take 1 ++ fraction ++ 'e' :: (if exponent < 0 then '-' else '+') ::
    Nat.toDigits 10 exponent.natAbs

/-- The magnitude of a rank. -/
def magnitude (layout : Layout) (f : BinaryFormat) (rank : Nat) : List Char :=
  if rank = 0 then '0' :: layout.wholeEnd
  else if f.infinite ≤ rank then ['i', 'n', 'f']
  else
    let decimal := f.shortest layout.tie rank
    let digits := Nat.toDigits 10 decimal.digits
    let point := decimal.exponent + digits.length
    if layout.positional point then layout.spell digits point
    else spellExponent digits point

/-- A number as text. -/
def write {f : BinaryFormat} (layout : Layout) (x : Binary f) : List Char :=
  (if x.negative then ['-'] else []) ++ layout.magnitude f x.rank

end Layout

end Flowgraph
