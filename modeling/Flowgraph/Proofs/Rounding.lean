import Flowgraph.Proofs.Magnitude
import Mathlib.Algebra.Order.Field.Rat
import Mathlib.Data.Nat.Log
import Mathlib.Tactic.FieldSimp
import Mathlib.Tactic.Linarith
import Mathlib.Tactic.LinearCombination
import Mathlib.Tactic.Positivity
import Mathlib.Tactic.Ring

/-!
# Rounding

The value of a rank is a rational number, and `nearest` takes a quotient to the
rank whose value is nearest to it. `Rounds` says that without computing: the
quotient lies between the points that are halfway to the neighbours of the
rank, and on such a point only if the rank is even. For every number there is
one such rank, so a rank is found by giving bounds, whatever way the number was
written. That rounding is monotone, leaves values of the format alone and has a
relative error of half a unit follows.
-/

namespace Flowgraph

theorem nearestQuotient_spec (a : Nat) {b : Nat} (hb : 0 < b) :
    2 * a ≤ (2 * nearestQuotient a b + 1) * b ∧
      2 * nearestQuotient a b * b ≤ 2 * a + b ∧
      (2 * a = (2 * nearestQuotient a b + 1) * b →
        nearestQuotient a b % 2 = 0) ∧
      (2 * nearestQuotient a b * b = 2 * a + b →
        nearestQuotient a b % 2 = 0) := by
  have hdiv := Nat.div_add_mod a b
  have hmod := Nat.mod_lt a hb
  generalize hq : a / b = q at hdiv
  generalize hr : a % b = r at hdiv hmod
  have hquotient : nearestQuotient a b =
      if 2 * r < b ∨ (2 * r = b ∧ q % 2 = 0) then q else q + 1 := by
    rw [nearestQuotient, hq, hr]
  have hq₁ : (2 * q + 1) * b = 2 * (b * q) + b := by ring
  have hq₂ : 2 * q * b = 2 * (b * q) := by ring
  have hq₃ : (2 * (q + 1) + 1) * b = 2 * (b * q) + 3 * b := by ring
  have hq₄ : 2 * (q + 1) * b = 2 * (b * q) + 2 * b := by ring
  rw [hquotient]
  split
  · rw [hq₁, hq₂]
    omega
  · rw [hq₃, hq₄]
    omega

namespace BinaryFormat

variable (f : BinaryFormat)

/-- The value of a rank. -/
def toRat (rank : Nat) : ℚ := f.steps rank / 2 ^ f.lowest

variable {f}

theorem toRat_strictMono : StrictMono f.toRat := by
  intro a b h
  have hsteps : (f.steps a : ℚ) < f.steps b := by
    exact_mod_cast f.steps_strictMono h
  exact div_lt_div_of_pos_right hsteps (by positivity)

theorem toRat_nonneg (rank : Nat) : 0 ≤ f.toRat rank := by
  rw [toRat]
  positivity

/-- The rank of which a number is rounded: the number is no farther from its
value than halfway to the next ones, and halfway only if the rank is even. -/
structure Rounds (f : BinaryFormat) (rank : Nat) (x : ℚ) : Prop where
  low : 0 < rank → f.toRat (rank - 1) + f.toRat rank ≤ 2 * x
  high : 2 * x ≤ f.toRat rank + f.toRat (rank + 1)
  even_low : 0 < rank → f.toRat (rank - 1) + f.toRat rank = 2 * x →
    rank % 2 = 0
  even_high : 2 * x = f.toRat rank + f.toRat (rank + 1) → rank % 2 = 0

/-- A greater number is not rounded to a lower rank. -/
theorem Rounds.mono {r s : Nat} {x y : ℚ} (hr : f.Rounds r x)
    (hs : f.Rounds s y) (h : x ≤ y) : r ≤ s := by
  by_contra hlt
  have hpos : 0 < r := by omega
  have hlow := hr.low hpos
  have hhigh := hs.high
  have hprev : f.toRat s ≤ f.toRat (r - 1) :=
    toRat_strictMono.monotone (by omega)
  have hnext : f.toRat (s + 1) ≤ f.toRat r :=
    toRat_strictMono.monotone (by omega)
  -- Both numbers lie on the one point halfway between the ranks.
  have heq : f.toRat (r - 1) = f.toRat s := by linarith
  have hadj : r - 1 = s := toRat_strictMono.injective heq
  have hevenr := hr.even_low hpos (by linarith)
  have hevens := hs.even_high (by linarith)
  omega

theorem Rounds.unique {r s : Nat} {x : ℚ} (hr : f.Rounds r x)
    (hs : f.Rounds s x) : r = s :=
  Nat.le_antisymm (hr.mono hs le_rfl) (hs.mono hr le_rfl)

/-- Between the points halfway to the next ranks parity does not matter. -/
theorem rounds_of_lt {rank : Nat} {x : ℚ}
    (hlow : 0 < rank → f.toRat (rank - 1) + f.toRat rank < 2 * x)
    (hhigh : 2 * x < f.toRat rank + f.toRat (rank + 1)) : f.Rounds rank x :=
  ⟨fun hpos => (hlow hpos).le, hhigh.le,
    fun hpos heq => absurd heq (hlow hpos).ne,
    fun heq => absurd heq hhigh.ne⟩

/-! ## What `nearest` finds

The rank is put together from a run and a significand. Its significand can be
as great as twice the span; it is then the first rank of the next run, which
has the same value. -/

theorem span_eq : f.span = 2 ^ (f.precision - 1) := by
  rw [span, Nat.shiftLeft_eq, Nat.one_mul]

/-- The value of a run and a significand. -/
theorem steps_shift {s n : Nat} (hlow : 0 < s → f.span ≤ n)
    (hhigh : n ≤ 2 * f.span) : f.steps (s * f.span + n) = n * 2 ^ s := by
  rcases Nat.lt_or_ge n f.span with hn | hn
  · obtain rfl : s = 0 := by
      rcases Nat.eq_zero_or_pos s with h | h
      · exact h
      · exact absurd (hlow h) (by omega)
    rw [Nat.zero_mul, Nat.zero_add, f.steps_of_lt hn, Nat.pow_zero, Nat.mul_one]
  · rcases Nat.lt_or_ge n (2 * f.span) with hn' | hn'
    · have hrank : s * f.span + n = f.span * (s + 1) + (n - f.span) := by
        rw [Nat.mul_add, Nat.mul_comm s]
        omega
      rw [hrank, f.steps_run s (by omega), Nat.sub_add_cancel hn,
        Nat.shiftLeft_eq]
    · have hrank : s * f.span + n = f.span * (s + 1 + 1) + 0 := by
        rw [Nat.mul_add, Nat.mul_add, Nat.mul_comm s]
        omega
      have htop : n = 2 * f.span := Nat.le_antisymm hhigh hn'
      rw [hrank, f.steps_run (s + 1) f.span_pos, Nat.shiftLeft_eq, htop]
      ring

/-- The spacing of the values of a run. -/
def spacing (f : BinaryFormat) (s : Nat) : ℚ := 2 ^ s / 2 ^ f.lowest

theorem spacing_pos (f : BinaryFormat) (s : Nat) : 0 < f.spacing s := by
  rw [spacing]
  positivity

theorem spacing_succ (f : BinaryFormat) (s : Nat) :
    f.spacing (s + 1) = 2 * f.spacing s := by
  rw [spacing, spacing, pow_succ]
  ring

/-- How a number is rounded: the run that it lies in, and the multiple of the
spacing there that is nearest to it. -/
structure Parts (f : BinaryFormat) (x : ℚ) (s n : Nat) : Prop where
  full : 0 < s → f.span ≤ n
  le : n ≤ 2 * f.span
  run_le : 0 < s → f.span * f.spacing s ≤ x
  lt_run : x < 2 * f.span * f.spacing s
  high : 2 * x ≤ (2 * n + 1) * f.spacing s
  low : 2 * n * f.spacing s ≤ 2 * x + f.spacing s
  even_high : 2 * x = (2 * n + 1) * f.spacing s → n % 2 = 0
  even_low : 2 * n * f.spacing s = 2 * x + f.spacing s → n % 2 = 0

/-- The run of a quotient: the shift that `nearest` works with. -/
theorem run_bounds (f : BinaryFormat) {exact den s : Nat} (hden : 0 < den)
    (hs : (exact / den).log2 - (f.precision - 1) = s) :
    (0 < s → f.span * (den * 2 ^ s) ≤ exact) ∧
      exact < 2 * f.span * (den * 2 ^ s) := by
  constructor
  · intro hpos
    have hlog : (exact / den).log2 = s + (f.precision - 1) := by omega
    have hne : exact / den ≠ 0 := by
      intro hzero
      rw [hzero, Nat.log2_zero] at hlog
      omega
    have hle := Nat.log2_self_le hne
    rw [hlog, Nat.le_div_iff_mul_le hden, Nat.pow_add, ← span_eq] at hle
    calc f.span * (den * 2 ^ s) = 2 ^ s * f.span * den := by ring
      _ ≤ exact := hle
  · have hle : (exact / den).log2 + 1 ≤ s + (f.precision - 1) + 1 := by omega
    have hlt : exact / den < 2 ^ (s + (f.precision - 1) + 1) :=
      Nat.lt_of_lt_of_le Nat.lt_log2_self (Nat.pow_le_pow_right (by decide) hle)
    rw [Nat.div_lt_iff_lt_mul hden, Nat.pow_succ, Nat.pow_add, ← span_eq] at hlt
    calc exact < 2 ^ s * f.span * 2 * den := hlt
      _ = 2 * f.span * (den * 2 ^ s) := by ring

theorem nearest_parts (f : BinaryFormat) (num : Nat) {den : Nat}
    (hden : 0 < den) :
    ∃ s n, (f.nearest num den).val = min (s * f.span + n) f.infinite ∧
      f.Parts ((num : ℚ) / den) s n := by
  have hnearest : (f.nearest num den).val =
      min (((num <<< f.lowest / den).log2 - (f.precision - 1)) * f.span +
        nearestQuotient (num <<< f.lowest)
          (den <<< ((num <<< f.lowest / den).log2 - (f.precision - 1))))
        f.infinite := rfl
  refine ⟨_, _, hnearest, ?_⟩
  rw [Nat.shiftLeft_eq, Nat.shiftLeft_eq]
  have hx : ((num * 2 ^ f.lowest : Nat) : ℚ) =
      num / den * (den * 2 ^ f.lowest) := by
    push_cast
    field_simp
  generalize num * 2 ^ f.lowest = exact at hx ⊢
  generalize hs : (exact / den).log2 - (f.precision - 1) = s
  have hunit : 0 < den * 2 ^ s := Nat.mul_pos hden (Nat.two_pow_pos s)
  have hu : ((den * 2 ^ s : Nat) : ℚ) = f.spacing s * (den * 2 ^ f.lowest) := by
    rw [spacing]
    push_cast
    field_simp
  obtain ⟨hhigh, hlow, hevenhigh, hevenlow⟩ := nearestQuotient_spec exact hunit
  obtain ⟨hrun, hlt⟩ := f.run_bounds hden hs
  generalize den * 2 ^ s = unit at *
  generalize nearestQuotient exact unit = n at *
  have hscale : (0 : ℚ) < den * 2 ^ f.lowest := by positivity
  generalize (den : ℚ) * 2 ^ f.lowest = scale at *
  generalize (num : ℚ) / den = x at *
  constructor
  · intro hpos
    have hle := Nat.le_trans (Nat.mul_le_mul_left 2 (hrun hpos)) hhigh
    rw [← Nat.mul_assoc] at hle
    have hn := Nat.le_of_mul_le_mul_right hle hunit
    omega
  · have hle : 2 * n * unit < (4 * f.span + 1) * unit := by
      calc 2 * n * unit ≤ 2 * exact + unit := hlow
        _ < 2 * (2 * f.span * unit) + unit := by omega
        _ = (4 * f.span + 1) * unit := by ring
    have hn := Nat.lt_of_mul_lt_mul_right hle
    omega
  · intro hpos
    have h : (f.span : ℚ) * unit ≤ exact := by exact_mod_cast hrun hpos
    rw [hx, hu] at h
    refine le_of_mul_le_mul_right ?_ hscale
    linarith
  · have h : (exact : ℚ) < 2 * f.span * unit := by exact_mod_cast hlt
    rw [hx, hu] at h
    refine lt_of_mul_lt_mul_right ?_ hscale.le
    linarith
  · have h : (2 * exact : ℚ) ≤ (2 * n + 1) * unit := by exact_mod_cast hhigh
    rw [hx, hu] at h
    refine le_of_mul_le_mul_right ?_ hscale
    linarith
  · have h : (2 * n * unit : ℚ) ≤ 2 * exact + unit := by exact_mod_cast hlow
    rw [hx, hu] at h
    refine le_of_mul_le_mul_right ?_ hscale
    linarith
  · intro heq
    refine hevenhigh ?_
    have h : (2 * exact : ℚ) = (2 * n + 1) * unit := by
      rw [hx, hu]
      linear_combination scale * heq
    exact_mod_cast h
  · intro heq
    refine hevenlow ?_
    have h : (2 * n * unit : ℚ) = 2 * exact + unit := by
      rw [hx, hu]
      linear_combination scale * heq
    exact_mod_cast h

/-- A format with at least two significant bits has an even span. -/
theorem span_even (h : 2 ≤ f.precision) : f.span % 2 = 0 := by
  obtain ⟨p, hp⟩ : ∃ p, f.precision - 1 = p + 1 := ⟨f.precision - 2, by omega⟩
  rw [span_eq, hp, Nat.pow_succ, Nat.mul_mod_left]

theorem toRat_shift {s n : Nat} (hlow : 0 < s → f.span ≤ n)
    (hhigh : n ≤ 2 * f.span) :
    f.toRat (s * f.span + n) = n * f.spacing s := by
  rw [toRat, steps_shift hlow hhigh, spacing]
  push_cast
  ring

namespace Parts

variable {x : ℚ} {s n : Nat}

/-- The value of the next rank. It is one spacing away, or farther where a new
run begins; then the number was rounded up to the end of its run. -/
theorem next (h : f.Parts x s n) :
    (n + 1) * f.spacing s ≤ f.toRat (s * f.span + n + 1) ∧
      (f.toRat (s * f.span + n + 1) = (n + 1) * f.spacing s ∨
        x < n * f.spacing s) := by
  have hspacing := f.spacing_pos s
  rcases Nat.lt_or_eq_of_le h.le with hlt | htop
  · have hval := toRat_shift (f := f) (s := s) (n := n + 1)
      (fun hs => Nat.le_succ_of_le (h.full hs)) hlt
    rw [← Nat.add_assoc] at hval
    push_cast at hval
    exact ⟨hval.ge, .inl hval⟩
  · have hrank : s * f.span + n + 1 = (s + 1) * f.span + (f.span + 1) := by
      rw [Nat.add_mul]
      omega
    have hval := toRat_shift (f := f) (s := s + 1) (n := f.span + 1)
      (fun _ => Nat.le_succ _) (by have := f.span_pos; omega)
    have hn : (n : ℚ) = 2 * f.span := by exact_mod_cast htop
    rw [← hrank, spacing_succ] at hval
    push_cast at hval
    refine ⟨by rw [hval, hn]; linarith, .inr ?_⟩
    rw [hn]
    exact h.lt_run

/-- The value of the rank before. It is one spacing away, or nearer where the
run begins; then the number was rounded down to the start of its run. -/
theorem prev (h : f.Parts x s n) (hpos : 0 < s * f.span + n) :
    f.toRat (s * f.span + n - 1) = (n - 1) * f.spacing s ∨
      n * f.spacing s ≤ x := by
  rcases Nat.eq_zero_or_pos s with rfl | hs
  · have hn : 0 < n := by simpa using hpos
    have hval := toRat_shift (f := f) (s := 0) (n := n - 1) nofun
      (by have := h.le; omega)
    rw [Nat.cast_sub hn, Nat.cast_one] at hval
    refine .inl ?_
    rw [Nat.add_sub_assoc hn]
    exact hval
  · rcases Nat.lt_or_eq_of_le (h.full hs) with hlt | hbottom
    · have hval := toRat_shift (f := f) (s := s) (n := n - 1)
        (fun _ => by omega) (by have := h.le; omega)
      rw [Nat.cast_sub (by omega), Nat.cast_one] at hval
      refine .inl ?_
      rw [Nat.add_sub_assoc (by omega)]
      exact hval
    · refine .inr ?_
      rw [← hbottom]
      exact h.run_le hs

/-- What is put together from the parts of a number is its rank. -/
theorem rounds (h : f.Parts x s n) (hp : 2 ≤ f.precision) :
    f.Rounds (s * f.span + n) x := by
  have hspacing := f.spacing_pos s
  have hvalue := toRat_shift h.full h.le
  have heven : (s * f.span + n) % 2 = n % 2 := by
    rw [Nat.add_mod, Nat.mul_mod, span_even hp]
    simp
  obtain ⟨hnext, hnext'⟩ := h.next
  have hless (hpos : 0 < s * f.span + n) :
      f.toRat (s * f.span + n - 1) < n * f.spacing s := by
    rw [← hvalue]
    exact toRat_strictMono (by omega)
  constructor
  · intro hpos
    rw [hvalue]
    rcases h.prev hpos with hval | hle
    · linarith [h.low]
    · linarith [hless hpos]
  · rw [hvalue]
    linarith [h.high]
  · intro hpos heq
    rw [hvalue] at heq
    rcases h.prev hpos with hval | hle
    · rw [heven]
      exact h.even_low (by linarith)
    · linarith [hless hpos]
  · intro heq
    rw [hvalue] at heq
    rcases hnext' with hval | hlt
    · rw [heven]
      exact h.even_high (by linarith)
    · linarith

/-- A multiple of the spacing in its run is a value of the format. -/
theorem toRat_eq (h : f.Parts x s n) {m : Nat} (hx : x = m * f.spacing s) :
    f.toRat (s * f.span + n) = x := by
  have hspacing := f.spacing_pos s
  have hhigh := h.high
  have hlow := h.low
  rw [hx] at hhigh hlow
  have hle : (2 * m : ℚ) ≤ 2 * n + 1 :=
    le_of_mul_le_mul_right (by linarith) hspacing
  have hge : (2 * n : ℚ) ≤ 2 * m + 1 :=
    le_of_mul_le_mul_right (by linarith) hspacing
  have hnat : 2 * m ≤ 2 * n + 1 ∧ 2 * n ≤ 2 * m + 1 := by
    constructor
    · exact_mod_cast hle
    · exact_mod_cast hge
  obtain rfl : m = n := by omega
  rw [toRat_shift h.full h.le, hx]

/-- Above the first run the error is at most half a unit of the last place. -/
theorem error_le (h : f.Parts x s n) (hx : f.span * f.spacing 0 ≤ x) :
    |f.toRat (s * f.span + n) - x| * (2 * f.span) ≤ x := by
  have hspan : (0 : ℚ) < f.span := by exact_mod_cast f.span_pos
  have hrun : f.span * f.spacing s ≤ x := by
    rcases Nat.eq_zero_or_pos s with rfl | hs
    · exact hx
    · exact h.run_le hs
  have habs : |f.toRat (s * f.span + n) - x| ≤ f.spacing s / 2 := by
    rw [toRat_shift h.full h.le]
    exact abs_sub_le_iff.mpr ⟨by linarith [h.low], by linarith [h.high]⟩
  calc |f.toRat (s * f.span + n) - x| * (2 * f.span)
      ≤ f.spacing s / 2 * (2 * f.span) :=
        mul_le_mul_of_nonneg_right habs (by linarith)
    _ = f.span * f.spacing s := by ring
    _ ≤ x := hrun

end Parts

/-- A quotient that is rounded to a rank of the format is taken to that rank. -/
theorem nearest_eq {num den rank : Nat} (hp : 2 ≤ f.precision)
    (hden : 0 < den) (hrank : rank ≤ f.infinite)
    (h : f.Rounds rank ((num : ℚ) / den)) : (f.nearest num den).val = rank := by
  obtain ⟨s, n, hval, hparts⟩ := nearest_parts f num hden
  rw [hval, (hparts.rounds hp).unique h, Nat.min_eq_left hrank]

/-- A number below the point halfway to infinity is rounded to a finite one. -/
theorem nearest_lt_infinite {num den : Nat} (hp : 2 ≤ f.precision)
    (hinfinite : 0 < f.infinite) (hden : 0 < den)
    (h : 2 * ((num : ℚ) / den) <
      f.toRat (f.infinite - 1) + f.toRat f.infinite) :
    (f.nearest num den).val < f.infinite := by
  obtain ⟨s, n, hval, hparts⟩ := nearest_parts f num hden
  by_contra hge
  have hle : f.infinite ≤ s * f.span + n := by omega
  have hlow := (hparts.rounds hp).low (by omega)
  have hprev : f.toRat (f.infinite - 1) ≤ f.toRat (s * f.span + n - 1) :=
    toRat_strictMono.monotone (by omega)
  have hlast : f.toRat f.infinite ≤ f.toRat (s * f.span + n) :=
    toRat_strictMono.monotone hle
  linarith

theorem nearest_error_le {num den : Nat} (hden : 0 < den)
    (h : (f.nearest num den).val < f.infinite)
    (hx : f.span * f.spacing 0 ≤ (num : ℚ) / den) :
    |f.toRat (f.nearest num den) - (num : ℚ) / den| * (2 * f.span) ≤
      (num : ℚ) / den := by
  obtain ⟨s, n, hval, hparts⟩ := nearest_parts f num hden
  have hrank : (f.nearest num den).val = s * f.span + n := by omega
  rw [hrank]
  exact hparts.error_le hx

theorem spacing_add (f : BinaryFormat) (s t : Nat) :
    f.spacing (s + t) = 2 ^ t * f.spacing s := by
  rw [spacing, spacing, pow_add]
  ring

/-- A number with few enough significant bits is a value of the format. -/
theorem toRat_nearest {num den m t : Nat} (hden : 0 < den)
    (h : (f.nearest num den).val < f.infinite)
    (hx : (num : ℚ) / den = m * f.spacing t) (hm : m < 2 * f.span) :
    f.toRat (f.nearest num den) = (num : ℚ) / den := by
  obtain ⟨s, n, hval, hparts⟩ := nearest_parts f num hden
  have hrank : (f.nearest num den).val = s * f.span + n := by omega
  have hle : s ≤ t := by
    by_contra hlt
    obtain ⟨d, rfl⟩ := Nat.exists_eq_add_of_lt (Nat.lt_of_not_le hlt)
    have hrun := hparts.run_le (Nat.succ_pos _)
    have hspacing := f.spacing_pos t
    have hspan : (0 : ℚ) < f.span := by exact_mod_cast f.span_pos
    have hgrow : 2 * f.spacing t ≤ f.spacing (t + d + 1) := by
      rw [spacing_succ, spacing_add]
      have hone : (1 : ℚ) ≤ 2 ^ d := one_le_pow₀ (by norm_num)
      nlinarith
    have hm' : (m : ℚ) < 2 * f.span := by exact_mod_cast hm
    rw [hx] at hrun
    nlinarith
  obtain ⟨d, rfl⟩ := Nat.exists_eq_add_of_le hle
  rw [hrank]
  refine hparts.toRat_eq (m := m * 2 ^ d) ?_
  rw [hx, spacing_add]
  push_cast
  ring

end BinaryFormat

end Flowgraph
