import Flowgraph.Number.Binary
import Mathlib.Order.Monotone.Basic

/-!
# Ranks and values

A rank numbers the values of a format in increasing order. That is a theorem
about `steps`, which says what the value of a rank is: from one rank to the next
the value grows, also where the significand runs over its top and the spacing
doubles. So comparing the places of two numbers compares the numbers.
-/

namespace Flowgraph

namespace BinaryFormat

variable (f : BinaryFormat)

theorem span_pos : 0 < f.span := by
  rw [span, Nat.shiftLeft_eq]
  exact Nat.mul_pos Nat.one_pos (Nat.two_pow_pos _)

/-- One, counted in least steps. -/
def one : Nat := 1 <<< f.lowest

theorem steps_of_lt {rank : Nat} (h : rank < f.span) : f.steps rank = rank := by
  rw [steps, significand, if_pos h, shift, Nat.div_eq_of_lt h]
  rfl

/-- The value of the rank in place `r` of the run with number `q`. -/
theorem steps_run (q : Nat) {r : Nat} (h : r < f.span) :
    f.steps (f.span * (q + 1) + r) = (r + f.span) <<< q := by
  have hdiv : (f.span * (q + 1) + r) / f.span = q + 1 := by
    rw [Nat.mul_add_div f.span_pos, Nat.div_eq_of_lt h, Nat.add_zero]
  have hmod : (f.span * (q + 1) + r) % f.span = r := by
    rw [Nat.mul_add_mod, Nat.mod_eq_of_lt h]
  have hge : ¬ f.span * (q + 1) + r < f.span := by
    have hle : f.span ≤ f.span * (q + 1) :=
      Nat.le_mul_of_pos_right _ (Nat.succ_pos q)
    omega
  rw [steps, significand, if_neg hge, shift, hdiv, hmod, Nat.add_sub_cancel]

theorem steps_lt_succ (rank : Nat) : f.steps rank < f.steps (rank + 1) := by
  by_cases hlow : rank + 1 < f.span
  · rw [f.steps_of_lt hlow, f.steps_of_lt (by omega)]
    exact Nat.lt_succ_self rank
  by_cases hfirst : rank < f.span
  · -- The first full run begins with the spacing of the ranks below it.
    have heq : rank + 1 = f.span * (0 + 1) + 0 := by omega
    rw [f.steps_of_lt hfirst, heq, f.steps_run 0 f.span_pos]
    exact Nat.lt_of_lt_of_eq hfirst (by simp)
  obtain ⟨q, r, hr, rfl⟩ : ∃ q r, r < f.span ∧ rank = f.span * (q + 1) + r := by
    refine ⟨rank / f.span - 1, rank % f.span, Nat.mod_lt _ f.span_pos, ?_⟩
    have hpos : 0 < rank / f.span := Nat.div_pos (by omega) f.span_pos
    rw [Nat.sub_add_cancel hpos, Nat.div_add_mod]
  rw [f.steps_run q hr]
  by_cases htop : r + 1 < f.span
  · rw [Nat.add_assoc, f.steps_run q htop, Nat.shiftLeft_eq, Nat.shiftLeft_eq]
    exact Nat.mul_lt_mul_of_pos_right (by omega) (Nat.two_pow_pos q)
  · -- The run is full: the next one has half as many values per step.
    have hnext : f.span * (q + 1) + r + 1 = f.span * (q + 1 + 1) + 0 := by
      rw [Nat.mul_add f.span (q + 1) 1]
      omega
    rw [hnext, f.steps_run (q + 1) f.span_pos, Nat.shiftLeft_eq,
      Nat.shiftLeft_eq, Nat.pow_succ', ← Nat.mul_assoc]
    exact Nat.mul_lt_mul_of_pos_right (by omega) (Nat.two_pow_pos q)

theorem steps_strictMono : StrictMono f.steps :=
  strictMono_nat_of_lt_succ f.steps_lt_succ

end BinaryFormat

namespace Binary

variable {f : BinaryFormat} (x y : Binary f)

/-- The value of a number, counted in least steps. -/
def value : Int :=
  if x.negative then -(f.steps x.rank : Int) else f.steps x.rank

/-- The order of a format is the order of its values. -/
theorem order_le_order_iff : x.order ≤ y.order ↔ x.value ≤ y.value := by
  have hzero : f.steps 0 = 0 := f.steps_of_lt f.span_pos
  have hle := f.steps_strictMono.le_iff_le (a := x.rank.val) (b := y.rank.val)
  have hge := f.steps_strictMono.le_iff_le (a := y.rank.val) (b := x.rank.val)
  have hx := f.steps_strictMono.le_iff_le (a := x.rank.val) (b := 0)
  have hy := f.steps_strictMono.le_iff_le (a := y.rank.val) (b := 0)
  rw [hzero] at hx hy
  rw [order, order, value, value]
  cases x.negative <;> cases y.negative <;>
    simp only [reduceIte, Bool.false_eq_true] <;> omega

end Binary

end Flowgraph
