import Flowgraph.Proofs.Decimals

/-!
# The value of a written decimal

A numeral is read in a few roundings: of its digits, of a power of ten, and of
their product or quotient. Each of them has a relative error of at most half a
unit, and none at all where the exact result has few enough bits. So what a
decimal is read as is bounded by its own value, and that is all that is needed
of the arithmetic of doubles.
-/

namespace Flowgraph

namespace BinaryFormat

variable {f : BinaryFormat}

/-- The values of the last ranks, counted down from infinity. -/
theorem toRat_infinite_sub (h : 2 ≤ f.binades) {j : Nat} (hj : j ≤ f.span) :
    f.toRat (f.infinite - j) =
      (2 * f.span - j) * f.spacing (f.binades - 2) := by
  obtain ⟨b, hb⟩ : ∃ b, f.binades = b + 2 := ⟨f.binades - 2, by omega⟩
  have hrank : f.infinite - j = b * f.span + (2 * f.span - j) := by
    rw [infinite, hb, Nat.add_mul]
    omega
  rw [hrank, toRat_shift (fun _ => by omega) (by omega), hb,
    Nat.add_sub_cancel, Nat.cast_sub (by omega)]
  push_cast
  rfl

/-- Numbers that are rounded to finite ranks above the first run. -/
structure InRange (f : BinaryFormat) (x : ℚ) : Prop where
  low : f.span * f.spacing 0 ≤ x
  high : 2 * x < f.toRat (f.infinite - 1) + f.toRat f.infinite

/-- A number is within the fraction `1 / t` of the number it stands for. -/
def Near (t y x : ℚ) : Prop := |y - x| * t ≤ x

theorem Near.nonneg {t y x : ℚ} (h : Near t y x) (ht : 0 ≤ t) : 0 ≤ x :=
  le_trans (mul_nonneg (abs_nonneg _) ht) h

theorem Near.mono {s t y x : ℚ} (h : Near t y x) (hst : s ≤ t) : Near s y x :=
  le_trans (mul_le_mul_of_nonneg_left hst (abs_nonneg _)) h

theorem Near.mul_left {t y x : ℚ} (h : Near t y x) {c : ℚ} (hc : 0 ≤ c) :
    Near t (c * y) (c * x) := by
  rw [Near, ← mul_sub, abs_mul, abs_of_nonneg hc, mul_assoc]
  exact mul_le_mul_of_nonneg_left h hc

theorem Near.le_mul {t y x : ℚ} (h : Near t y x) (ht : 0 ≤ t) :
    x * (t - 1) ≤ y * t := by
  have hsub : x - y ≤ |y - x| := by
    rw [abs_sub_comm]
    exact le_abs_self _
  have hmul := mul_le_mul_of_nonneg_right hsub ht
  rw [Near] at h
  linarith

theorem Near.mul_le {t y x : ℚ} (h : Near t y x) (ht : 0 ≤ t) :
    y * t ≤ x * (t + 1) := by
  have hmul := mul_le_mul_of_nonneg_right (le_abs_self (y - x)) ht
  rw [Near] at h
  linarith

theorem Near.pos {t y x : ℚ} (h : Near t y x) (ht : 1 < t) (hx : 0 < x) :
    0 < y := by
  have hpos : 0 < x * (t - 1) := mul_pos hx (by linarith)
  exact pos_of_mul_pos_left (lt_of_lt_of_le hpos (h.le_mul (by linarith)))
    (by linarith)

/-- The quotient by a rounded number is a little farther off. -/
theorem Near.div_left {t y x : ℚ} (h : Near t y x) (ht : 1 < t) (hx : 0 < x)
    {c : ℚ} (hc : 0 ≤ c) : Near (t - 1) (c / y) (c / x) := by
  have hle := h.le_mul (by linarith)
  have hy := h.pos ht hx
  rw [Near] at h
  have hdiff : c / y - c / x = c * (x - y) / (y * x) := by
    field_simp
  rw [Near, hdiff, abs_div, abs_mul, abs_of_nonneg hc,
    abs_of_pos (mul_pos hy hx), abs_sub_comm, div_mul_eq_mul_div,
    div_le_div_iff₀ (mul_pos hy hx) hx]
  have hmul : |y - x| * (t - 1) ≤ y := by
    refine le_of_mul_le_mul_right ?_ (by linarith : (0 : ℚ) < t)
    calc |y - x| * (t - 1) * t = |y - x| * t * (t - 1) := by ring
      _ ≤ x * (t - 1) := mul_le_mul_of_nonneg_right h (by linarith)
      _ ≤ y * t := hle
  calc c * |y - x| * (t - 1) * x = |y - x| * (t - 1) * (c * x) := by ring
    _ ≤ y * (c * x) := mul_le_mul_of_nonneg_right hmul (by positivity)
    _ = c * (y * x) := by ring

/-- Two roundings in a row, the first of them by way of a quotient. -/
theorem Near.trans {t y x z : ℚ} (h : Near t y x) (h' : Near (t - 1) x z)
    (ht : 1 < t) : Near (t / 2 - 1) y z := by
  rw [Near] at h h' ⊢
  have hz : 0 ≤ z := Near.nonneg h' (by linarith)
  have hsum : |y - z| ≤ |y - x| + |x - z| := abs_sub_le ..
  have hx : x ≤ z + |x - z| := by linarith [le_abs_self (x - z)]
  have hfirst : |y - x| * (t - 1) ≤ z := by
    refine le_of_mul_le_mul_right ?_ (by linarith : (0 : ℚ) < t)
    calc |y - x| * (t - 1) * t = |y - x| * t * (t - 1) := by ring
      _ ≤ (z + |x - z|) * (t - 1) :=
        mul_le_mul_of_nonneg_right (h.trans hx) (by linarith)
      _ = z * (t - 1) + |x - z| * (t - 1) := by ring
      _ ≤ z * (t - 1) + z := by linarith
      _ = z * t := by ring
  have hboth : |y - z| * (t - 1) ≤ 2 * z := by
    calc |y - z| * (t - 1) ≤ (|y - x| + |x - z|) * (t - 1) :=
        mul_le_mul_of_nonneg_right hsum (by linarith)
      _ ≤ 2 * z := by linarith
  have hnonneg := abs_nonneg (y - z)
  linarith

/-- Rounding a number of the range. -/
theorem near_nearest {num den : Nat} (hp : 2 ≤ f.precision)
    (hinfinite : 0 < f.infinite) (hden : 0 < den)
    (h : f.InRange ((num : ℚ) / den)) :
    (f.nearest num den).val < f.infinite ∧
      Near (2 * f.span) (f.toRat (f.nearest num den)) ((num : ℚ) / den) :=
  have hlt := nearest_lt_infinite hp hinfinite hden h.high
  ⟨hlt, nearest_error_le hden hlt h.low⟩

theorem one_shiftLeft_pos (n : Nat) : 0 < 1 <<< n := by
  rw [Nat.shiftLeft_eq, Nat.one_mul]
  exact Nat.two_pow_pos n

theorem toRat_steps (rank : Nat) :
    (f.steps rank : ℚ) / (1 <<< f.lowest : Nat) = f.toRat rank := by
  rw [toRat, Nat.shiftLeft_eq, Nat.one_mul]
  push_cast
  rfl

theorem toRat_product (a b : f.Rank) :
    ((f.steps a * f.steps b : Nat) : ℚ) / (1 <<< (2 * f.lowest) : Nat) =
      f.toRat a * f.toRat b := by
  rw [toRat, toRat, Nat.shiftLeft_eq, Nat.one_mul, two_mul, pow_add]
  push_cast
  field_simp

theorem toRat_quotient (a b : f.Rank) :
    (f.steps a : ℚ) / f.steps b = f.toRat a / f.toRat b := by
  rw [toRat, toRat]
  field_simp

theorem steps_pos {rank : Nat} (h : 0 < f.toRat rank) : 0 < f.steps rank := by
  refine Nat.pos_of_ne_zero fun hzero => ?_
  rw [toRat, hzero, Nat.cast_zero, zero_div] at h
  exact lt_irrefl _ h

/-! ## Doubles -/

theorem double_lowest : double.spacing 1074 = 1 :=
  div_self (by positivity)

theorem double_span : (double.span : ℚ) = 2 ^ 52 := by
  rw [span_eq]
  push_cast
  rfl

theorem two_double_span : (2 * double.span : ℚ) = 2 ^ 53 := by
  rw [double_span]
  norm_num

/-- The values of the last run, in terms of its spacing. -/
theorem double_infinite_sub {j : Nat} (hj : j ≤ double.span) :
    double.toRat (double.infinite - j) = (2 ^ 53 - j) * 2 ^ 971 := by
  have hspacing : double.spacing (double.binades - 2) = 2 ^ 971 := by
    have h := double.spacing_add 1074 971
    rwa [double_lowest, mul_one] at h
  rw [toRat_infinite_sub (by decide) hj, hspacing, two_double_span]

/-- The point from which numbers are rounded to infinity. -/
theorem double_top : double.toRat (double.infinite - 1) +
    double.toRat double.infinite = (2 ^ 54 - 1) * 2 ^ 971 := by
  have hone := double_infinite_sub (j := 1) (by decide)
  have hzero := double_infinite_sub (j := 0) (by decide)
  rw [Nat.sub_zero] at hzero
  generalize (2 : ℚ) ^ 971 = c at *
  rw [hone, hzero]
  push_cast
  ring

/-- The numbers that are safely within the range of doubles. -/
theorem inRange_double {x : ℚ} (hlow : 1 ≤ x * 2 ^ 1022)
    (hhigh : x < (2 ^ 54 - 1) * 2 ^ 970) : double.InRange x := by
  constructor
  · have hzero := double.spacing_add 0 1074
    have hpow : (2 : ℚ) ^ 1074 = 2 ^ 52 * 2 ^ 1022 := (pow_add 2 52 1022)
    rw [Nat.zero_add, double_lowest, hpow] at hzero
    have hscale : (0 : ℚ) < 2 ^ 1022 := by positivity
    -- The arithmetic that follows must not compute so great a power.
    generalize (2 : ℚ) ^ 1022 = c at *
    rw [double_span]
    refine le_of_mul_le_mul_right ?_ hscale
    linarith
  · have hpow : (2 : ℚ) ^ 971 = 2 ^ 970 * 2 := pow_succ 2 970
    rw [double_top, hpow]
    generalize (2 : ℚ) ^ 970 = c at *
    linarith

theorem double_near {num den : Nat} (hden : 0 < den)
    (h : double.InRange ((num : ℚ) / den)) :
    (double.nearest num den).val < double.infinite ∧
      Near (2 ^ 53) (double.toRat (double.nearest num den))
        ((num : ℚ) / den) := by
  rw [← two_double_span]
  exact near_nearest (by decide) (by decide) hden h

end BinaryFormat

namespace Numeral

open BinaryFormat

theorem ten_pow_range {k : Nat} (hk : k ≤ 308) : double.InRange (10 ^ k) := by
  have hhigh : 10 ^ k < 18014398509481983 * 2 ^ 970 :=
    Nat.lt_of_le_of_lt (Nat.pow_le_pow_right (by decide) hk) (by decide +kernel)
  rw [← Nat.cast_lt (α := ℚ), Nat.cast_mul, Nat.cast_pow, Nat.cast_pow] at hhigh
  push_cast at hhigh
  refine inRange_double ?_ (lt_of_lt_of_eq hhigh ?_)
  · exact one_le_mul_of_one_le_of_one_le (one_le_pow₀ (by norm_num))
      (one_le_pow₀ (by norm_num))
  · exact congrArg (· * (2 : ℚ) ^ 970) (by norm_num)

theorem cast_ten_pow (k : Nat) :
    ((Nat.pow 10 k : Nat) : ℚ) / (1 : Nat) = 10 ^ k := by
  rw [Nat.pow_eq]
  push_cast
  exact div_one _

theorem power_near {k : Nat} (hk : k ≤ 308) :
    (power k).val < double.infinite ∧
      Near (2 ^ 53) (double.toRat (power k)) (10 ^ k) := by
  have hrange := ten_pow_range hk
  rw [← cast_ten_pow] at hrange ⊢
  exact double_near Nat.one_pos hrange

theorem power_pos {k : Nat} (hk : k ≤ 308) : 0 < double.toRat (power k) :=
  (power_near hk).2.pos (by norm_num) (by positivity)

/-- The small powers of ten are values of the format. -/
theorem toRat_power {k : Nat} (hk : k ≤ 22) :
    double.toRat (power k) = 10 ^ k := by
  have hfive : 5 ^ k < 2 * double.span :=
    Nat.lt_of_le_of_lt (Nat.pow_le_pow_right (by decide) hk) (by decide)
  have hbits : (10 : ℚ) ^ k = (5 ^ k : Nat) * double.spacing (1074 + k) := by
    rw [spacing_add, double_lowest, mul_one, Nat.cast_pow, ← mul_pow]
    norm_num
  rw [← cast_ten_pow] at hbits ⊢
  exact toRat_nearest Nat.one_pos (power_near (by omega)).1 hbits hfive

/-- The digits of a numeral, rounded. -/
theorem whole_near {n : Nat} (hpos : 0 < n) (h : n < 2 ^ 64) :
    (double.nearest n 1).val < double.infinite ∧
      Near (2 ^ 53) (double.toRat (double.nearest n 1)) n := by
  have hcast : (n : ℚ) / (1 : Nat) = n := by rw [Nat.cast_one, div_one]
  have hone : (1 : ℚ) ≤ n := by exact_mod_cast hpos
  have hlt : (n : ℚ) < 2 ^ 64 := by exact_mod_cast h
  have hrange : double.InRange (n : ℚ) := by
    refine inRange_double ?_ ?_
    · exact one_le_mul_of_one_le_of_one_le hone (one_le_pow₀ (by norm_num))
    · have hpow : (2 : ℚ) ^ 970 = 2 ^ 11 * 2 ^ 959 := pow_add 2 11 959
      calc (n : ℚ) < 2 ^ 64 := hlt
        _ ≤ (2 ^ 54 - 1) * 2 ^ 11 := by norm_num
        _ ≤ (2 ^ 54 - 1) * 2 ^ 11 * 2 ^ 959 :=
          le_mul_of_one_le_right (by norm_num) (one_le_pow₀ (by norm_num))
        _ = (2 ^ 54 - 1) * 2 ^ 970 := by rw [hpow, mul_assoc]
  rw [← hcast] at hrange
  have hnear := double_near Nat.one_pos hrange
  rwa [hcast] at hnear

theorem toRat_whole {n : Nat} (hpos : 0 < n) (h : n < 2 ^ 53) :
    double.toRat (double.nearest n 1) = n := by
  have hcast : (n : ℚ) / (1 : Nat) = n := by rw [Nat.cast_one, div_one]
  have hbits : (n : ℚ) / (1 : Nat) = n * double.spacing 1074 := by
    rw [hcast, double_lowest, mul_one]
  have hfinite := (whole_near hpos (by omega)).1
  rw [toRat_nearest Nat.one_pos hfinite hbits h, hcast]

/-- What a number below `2 ^ 53` becomes before its last rounding. -/
def scaled (n : Nat) (exponent : Int) : ℚ :=
  if exponent < 0 then n / double.toRat (power exponent.natAbs)
  else n * double.toRat (power exponent.natAbs)

theorem zpow_natAbs (n : ℚ) (e : Int) :
    n * 10 ^ e = if e < 0 then n / 10 ^ e.natAbs else n * 10 ^ e.natAbs := by
  split
  · next h =>
      have he : e = -(e.natAbs : Int) := by omega
      conv_lhs => rw [he, zpow_neg, zpow_natCast]
      rfl
  · next h =>
      have he : e = (e.natAbs : Int) := by omega
      conv_lhs => rw [he, zpow_natCast]

theorem scaled_near (n : Nat) {e : Int} (he : e.natAbs ≤ 308) :
    Near (2 ^ 53 - 1) (scaled n e) (n * 10 ^ e) := by
  have hpower := (power_near he).2
  rw [scaled, zpow_natAbs]
  split
  · exact hpower.div_left (by norm_num) (by positivity) (Nat.cast_nonneg n)
  · exact (hpower.mul_left (Nat.cast_nonneg n)).mono (by norm_num)

theorem scaled_eq (n : Nat) {e : Int} (he : e.natAbs ≤ 22) :
    scaled n e = n * 10 ^ e := by
  rw [scaled, zpow_natAbs, toRat_power he]

/-- Scaling rounds once more. -/
theorem scale_eq {n : Nat} {e : Int} (hpos : 0 < n) (hn : n < 2 ^ 53)
    (he : e.natAbs ≤ 308) (hrange : double.InRange (scaled n e)) :
    ∃ num den : Nat, 0 < den ∧ (num : ℚ) / den = scaled n e ∧
      scale n e = .ok (double.nearest num den) := by
  have hwhole := toRat_whole hpos hn
  have hpower : 0 < double.steps (power e.natAbs) :=
    steps_pos (power_pos he)
  rw [scale]
  split
  · next hneg =>
      have hsteps : (e.natAbs - 1) / greatestPower = 0 :=
        Nat.div_eq_of_lt (by rw [greatestPower]; omega)
      refine ⟨double.steps (double.nearest n 1),
        double.steps (power e.natAbs), hpower, ?_, ?_⟩
      · rw [toRat_quotient, hwhole, scaled, if_pos hneg]
      · rw [divide, hsteps]
        rfl
  · next hneg =>
      have hscaled := toRat_product (double.nearest n 1) (power e.natAbs)
      have hne : ¬ double.nearest n 1 = 0 := by
        intro hzero
        have hfirst : double.toRat 0 = 0 := by
          rw [toRat, double.steps_of_lt double.span_pos, Nat.cast_zero,
            zero_div]
        rw [hzero] at hwhole
        have hn0 : (n : ℚ) = 0 := hwhole.symm.trans hfirst
        have : n = 0 := by exact_mod_cast hn0
        omega
      have hle : ¬ greatestPower < e.natAbs := by
        rw [greatestPower]
        omega
      rw [hwhole] at hscaled
      rw [scaled, if_neg hneg, ← hscaled] at hrange
      have hden := one_shiftLeft_pos (2 * double.lowest)
      refine ⟨double.steps (double.nearest n 1) *
        double.steps (power e.natAbs), 1 <<< (2 * double.lowest), hden, ?_, ?_⟩
      · rw [hscaled, scaled, if_neg hneg]
      · rw [if_neg hne, if_neg hle, if_neg]
        · rfl
        · exact Nat.not_le.mpr (double_near hden hrange).1

theorem scaled_range (n : Nat) {e : Int} (he : e.natAbs ≤ 308)
    (hlow : 1 ≤ (n * 10 ^ e : ℚ) * 2 ^ 1000)
    (hhigh : (n * 10 ^ e : ℚ) ≤ 2 ^ 900) : double.InRange (scaled n e) := by
  have hnear := scaled_near n he
  have hle := hnear.le_mul (by norm_num)
  have hge := hnear.mul_le (by norm_num)
  have hnonneg := hnear.nonneg (by norm_num)
  generalize (n * 10 ^ e : ℚ) = z at *
  have hhalf : z ≤ 2 * scaled n e := by
    linarith only [hle, hnonneg]
  have hdouble : scaled n e ≤ 2 * z := by
    linarith only [hge, hnonneg]
  refine inRange_double ?_ ?_
  · have hpow : (2 : ℚ) ^ 1022 = 2 ^ 22 * 2 ^ 1000 := (pow_add 2 22 1000)
    have hscale : (0 : ℚ) < 2 ^ 1000 := by positivity
    rw [hpow]
    generalize (2 : ℚ) ^ 1000 = c at *
    have hc : z * c ≤ 2 * scaled n e * c :=
      mul_le_mul_of_nonneg_right hhalf hscale.le
    linarith only [hc, hlow, hscale]
  · have hpow : (2 : ℚ) ^ 970 = 2 ^ 70 * 2 ^ 900 := (pow_add 2 70 900)
    have hscale : (0 : ℚ) < 2 ^ 900 := by positivity
    rw [hpow]
    generalize (2 : ℚ) ^ 900 = c at *
    linarith only [hdouble, hhigh, hscale]

/-- What a decimal with few digits is read as: nearly its value. With a small
exponent only one rounding is made, and none where the value is a double. -/
theorem scale_near {n : Nat} {e : Int} (hpos : 0 < n) (hn : n < 2 ^ 53)
    (he : e.natAbs ≤ 308) (hlow : 1 ≤ (n * 10 ^ e : ℚ) * 2 ^ 1000)
    (hhigh : (n * 10 ^ e : ℚ) ≤ 2 ^ 900) :
    ∃ rank, scale n e = .ok rank ∧
      Near (2 ^ 52 - 1) (double.toRat rank) (n * 10 ^ e) ∧
      (e.natAbs ≤ 22 → Near (2 ^ 53) (double.toRat rank) (n * 10 ^ e) ∧
        ∀ m t : Nat, m < 2 ^ 53 → (n * 10 ^ e : ℚ) = m * double.spacing t →
          double.toRat rank = n * 10 ^ e) := by
  have hrange := scaled_range n he hlow hhigh
  obtain ⟨num, den, hden, hquotient, hscale⟩ := scale_eq hpos hn he hrange
  have hscaled := scaled_near n he
  rw [← hquotient] at hrange hscaled
  obtain ⟨hfinite, hnear⟩ := double_near hden hrange
  refine ⟨_, hscale, ?_, fun hsmall => ?_⟩
  · have hhalf : (2 : ℚ) ^ 52 - 1 = 2 ^ 53 / 2 - 1 := by norm_num
    rw [hhalf]
    exact hnear.trans hscaled (by norm_num)
  · rw [← scaled_eq n hsmall, ← hquotient]
    exact ⟨hnear, fun m t hm hbits => toRat_nearest hden hfinite hbits hm⟩

end Numeral

/-! ## Written decimals

The digits of a written decimal are read as one number, with an exponent that
puts the point back in its place. A whole number that is written without an
exponent has its zeros, and the one behind the point, among its digits. -/

namespace Numeral

theorem value_of_lt {m : Numeral} (h : m.fraction ≠ none ∨ m.exponent ≠ none)
    {n : Nat} (hn : Nat.ofDigitChars 10 (m.whole ++ m.fraction.getD []) 0 = n)
    (hlt : n < UInt64.size) {e : Int}
    (he : m.exponent.getD 0 - (m.fraction.getD []).length = e) :
    m.value = scale n e >>= fun rank => .ok (.double ⟨m.negative, rank⟩) := by
  obtain ⟨negative, whole, fraction, exponent⟩ := m
  subst hn he
  rw [Nat.ofDigitChars_append] at hlt ⊢
  have hwhole : absorb 0 whole = (Nat.ofDigitChars 10 whole 0, 0) :=
    absorb_of_lt (Nat.lt_of_le_of_lt (le_ofDigitChars _ _) hlt)
  have hexponent : (0 : Int) - ((fraction.getD []).length - 0) +
      exponent.getD 0 = exponent.getD 0 - (fraction.getD []).length := by
    omega
  rw [value]
  simp only [hwhole]
  split
  · simp at h
  · rw [absorb_of_lt hlt]
    simp only [Int.natCast_zero, hexponent]

end Numeral

namespace Layout

/-- The number that the digits of a written decimal are read as, and the
exponent that goes with it. -/
def parts (layout : Layout) (d : Decimal) : Nat × Int :=
  if layout.positional (d.exponent + (Nat.toDigits 10 d.digits).length) ∧
      0 ≤ d.exponent then
    (d.digits * Nat.pow 10 (d.exponent.toNat + 1), -1)
  else (d.digits, d.exponent)

theorem parts_toRat (layout : Layout) (d : Decimal) :
    ((layout.parts d).1 * 10 ^ (layout.parts d).2 : ℚ) = d.toRat := by
  rw [parts]
  split
  · next h =>
      have hexponent : d.exponent = (d.exponent.toNat : Int) := by omega
      rw [Decimal.toRat, Nat.pow_eq]
      conv_rhs => rw [hexponent, zpow_natCast]
      push_cast
      rw [pow_succ, zpow_neg_one]
      field_simp
  · rfl

/-- The digits that are read are few: where zeros are written out there are not
many places. -/
theorem parts_lt {layout : Layout} {k : Nat}
    (hk : ∀ point, layout.positional point = true → point ≤ k) {n : Nat}
    (hn : 10 ^ (k + 1) ≤ n) {d : Decimal} (hdigits : d.digits < n) :
    (layout.parts d).1 < n := by
  rw [parts]
  split
  · next hparts =>
      obtain ⟨hpositional, hexponent⟩ := hparts
      have hpoint := hk _ hpositional
      have hlen := (Nat.length_toDigits_le_iff (n := d.digits) (b := 10)
        (by decide) Nat.length_toDigits_pos).mp (Nat.le_refl _)
      generalize (Nat.toDigits 10 d.digits).length = len at hpoint hlen
      calc d.digits * Nat.pow 10 (d.exponent.toNat + 1)
          < 10 ^ len * 10 ^ (d.exponent.toNat + 1) :=
            Nat.mul_lt_mul_of_pos_right hlen (Nat.pow_pos (by decide))
        _ = 10 ^ (len + (d.exponent.toNat + 1)) := (Nat.pow_add ..).symm
        _ ≤ 10 ^ (k + 1) := Nat.pow_le_pow_right (by decide) (by omega)
        _ ≤ n := hn
  · exact hdigits

theorem value_spelled (layout : Layout) (hpoint : layout.wholePoint = true)
    (negative : Bool) (d : Decimal)
    (hpositional : layout.positional
      (d.exponent + (Nat.toDigits 10 d.digits).length) = true)
    (hlt : (layout.parts d).1 < UInt64.size) :
    (layout.spelled negative (Nat.toDigits 10 d.digits)
        (d.exponent + (Nat.toDigits 10 d.digits).length)).value =
      Numeral.scale (layout.parts d).1 (layout.parts d).2 >>= fun rank =>
        .ok (.double ⟨negative, rank⟩) := by
  have hlen := Nat.length_toDigits_pos (b := 10) (n := d.digits)
  have hdigits := Nat.ofDigitChars_ten_toDigits (n := d.digits)
  rw [parts, hpositional] at hlt ⊢
  simp only [true_and] at hlt ⊢
  generalize Nat.toDigits 10 d.digits = digits at *
  rw [spelled]
  split
  · next hle =>
      rw [if_neg (by omega)] at hlt ⊢
      refine Numeral.value_of_lt (.inl (Option.some_ne_none _)) ?_ hlt ?_
      · rw [Option.getD_some, Nat.ofDigitChars_append, Nat.ofDigitChars_append,
          Nat.ofDigitChars_replicate_zero]
        exact hdigits
      · rw [Option.getD_some, List.length_append, List.length_replicate]
        simp only [Option.getD_none]
        omega
  · split
    -- Zeros fill the places up to the point, and one stands behind it.
    · next hpos hle =>
        rw [if_pos (by omega)] at hlt ⊢
        have hfraction : layout.wholeFraction = some ['0'] := by
          rw [wholeFraction, if_pos hpoint]
        have hzeros : (d.exponent + digits.length).toNat - digits.length =
            d.exponent.toNat := by
          omega
        rw [hfraction]
        refine Numeral.value_of_lt (.inl (Option.some_ne_none _)) ?_ hlt rfl
        rw [Option.getD_some, Nat.ofDigitChars_append, Nat.ofDigitChars_append,
          hdigits, Nat.ofDigitChars_replicate_zero, hzeros,
          Nat.ofDigitChars_cons, Nat.ofDigitChars_nil, Nat.pow_eq, Nat.pow_succ]
        show 10 * (10 ^ d.exponent.toNat * d.digits) + 0 = _
        ring
    · next hpos hle =>
        rw [if_neg (by omega)] at hlt ⊢
        refine Numeral.value_of_lt (.inl (Option.some_ne_none _)) ?_ hlt ?_
        · rw [Option.getD_some, List.take_append_drop]
          exact hdigits
        · rw [Option.getD_some, List.length_drop]
          simp only [Option.getD_none]
          omega

theorem fraction_spelledExponent (negative : Bool) (digits : List Char)
    (point : Int) :
    (spelledExponent negative digits point).fraction.getD [] =
      digits.drop 1 := by
  simp only [spelledExponent]
  cases digits.drop 1 <;> rfl

theorem value_spelledExponent (negative : Bool) (d : Decimal)
    (hlt : d.digits < UInt64.size) :
    (spelledExponent negative (Nat.toDigits 10 d.digits)
        (d.exponent + (Nat.toDigits 10 d.digits).length)).value =
      Numeral.scale d.digits d.exponent >>= fun rank =>
        .ok (.double ⟨negative, rank⟩) := by
  have hlen := Nat.length_toDigits_pos (b := 10) (n := d.digits)
  have hdigits := Nat.ofDigitChars_ten_toDigits (n := d.digits)
  generalize Nat.toDigits 10 d.digits = digits at *
  refine Numeral.value_of_lt (.inr (Option.some_ne_none _)) ?_ hlt ?_
  · rw [fraction_spelledExponent, ← hdigits]
    exact congrArg (Nat.ofDigitChars 10 · 0) (List.take_append_drop 1 digits)
  · rw [fraction_spelledExponent, List.length_drop]
    simp only [spelledExponent, Option.getD_some]
    omega

/-- What a written decimal is read as. -/
theorem value_decimal (layout : Layout) (hpoint : layout.wholePoint = true)
    (negative : Bool) (d : Decimal) (hlt : (layout.parts d).1 < UInt64.size) :
    (layout.decimal negative d).value =
      Numeral.scale (layout.parts d).1 (layout.parts d).2 >>= fun rank =>
        .ok (.double ⟨negative, rank⟩) := by
  rw [decimal]
  split
  · next h => exact layout.value_spelled hpoint negative d h hlt
  · next h =>
      have hparts : layout.parts d = (d.digits, d.exponent) :=
        if_neg fun hand => h hand.1
      rw [hparts] at hlt ⊢
      exact value_spelledExponent negative d hlt

end Layout

end Flowgraph
