import Flowgraph.Proofs.Singles

/-!
# 64-bit numbers read back

The decimal of a finite 64-bit number is always read as some number, if not as
the same one: the roundings on the way can end in a neighbour. What has to be
excluded is that they end beyond the greatest finite value. They move a number
by about two places of the last run at most, so only the last ranks have to be
tried out.
-/

namespace Flowgraph

namespace BinaryFormat

variable {rank : Nat} {d : Decimal}

theorem double_significand_lt (rank : Nat) : double.significand rank < 2 ^ 53 :=
  (double.rank_eq rank).2.1

theorem double_parts_lt (h : double.Shortest .even rank d) (hpos : 0 < rank) :
    (Layout.double.parts d).1 < UInt64.size := by
  have hdigits := h.digits_lt (by decide) hpos
  have hsig := double_significand_lt rank
  refine Layout.parts_lt (k := 16) (fun point hpoint => ?_) (by decide)
    (by rw [UInt64.size]; omega)
  simp only [Layout.double, Bool.and_eq_true, decide_eq_true_iff] at hpoint
  exact hpoint.2

/-- A decimal that is rounded to a rank before the last three is safely below
infinity. -/
theorem toRat_lt_of_rounds (h : double.Rounds rank d.toRat)
    (hrank : rank + 4 ≤ double.infinite) :
    2 * d.toRat ≤ (2 ^ 54 - 7) * 2 ^ 971 := by
  have hhigh := h.high
  have hfour := double_infinite_sub (j := 4) (by decide)
  have hthree := double_infinite_sub (j := 3) (by decide)
  have hfirst : double.toRat rank ≤ double.toRat (double.infinite - 4) :=
    toRat_strictMono.monotone (by omega)
  have hnext : double.toRat (rank + 1) ≤ double.toRat (double.infinite - 3) :=
    toRat_strictMono.monotone (by omega)
  generalize (2 : ℚ) ^ 971 = c at *
  rw [hfour] at hfirst
  rw [hthree] at hnext
  push_cast at hfirst hnext
  linarith

/-- The product of two rounded numbers is at most two places too great. -/
theorem product_lt {a b x y c : ℚ} (ha : Near (2 ^ 53) a x)
    (hb : Near (2 ^ 53) b y) (h : 2 * (x * y) ≤ (2 ^ 54 - 7) * c) (hc : 0 < c) :
    2 * (a * b) < (2 ^ 54 - 1) * c := by
  have ha' := ha.mul_le (by norm_num)
  have hb' := hb.mul_le (by norm_num)
  have hx := ha.nonneg (by norm_num)
  have hy := hb.nonneg (by norm_num)
  have hapos := ha.le_mul (by norm_num)
  have hbpos := hb.le_mul (by norm_num)
  have hmul : (a * 2 ^ 53) * (b * 2 ^ 53) ≤
      (x * (2 ^ 53 + 1)) * (y * (2 ^ 53 + 1)) :=
    mul_le_mul ha' hb' (by linarith) (by positivity)
  have hxy : x * (2 ^ 53 + 1) * (y * (2 ^ 53 + 1)) =
      (2 ^ 53 + 1) ^ 2 / 2 * (2 * (x * y)) := by ring
  have hab : a * 2 ^ 53 * (b * 2 ^ 53) = 2 ^ 106 / 2 * (2 * (a * b)) := by ring
  rw [hxy, hab] at hmul
  linarith

theorem exponent_le_of_toRat {k : Int}
    (h : 2 * 10 ^ k ≤ (2 ^ 54 - 7 : ℚ) * 2 ^ 971) : k ≤ 308 := by
  by_contra hgt
  have hten : (10 : ℚ) ^ (309 : Int) ≤ 10 ^ k :=
    zpow_le_zpow_right₀ (by norm_num) (by omega)
  have hnum : (18014398509481977 : Nat) * 2 ^ 971 < 2 * 10 ^ 309 := by
    decide +kernel
  rw [← Nat.cast_lt (α := ℚ), Nat.cast_mul, Nat.cast_mul, Nat.cast_pow,
    Nat.cast_pow] at hnum
  have hzpow : (10 : ℚ) ^ (309 : Int) = 10 ^ 309 := zpow_natCast 10 309
  rw [hzpow] at hten
  push_cast at hnum
  generalize (2 : ℚ) ^ 971 = c at *
  generalize (10 : ℚ) ^ 309 = t at *
  linarith

/-- Whether the decimal of a rank is read at all, tried out. -/
def scales (rank : Nat) : Bool :=
  let parts := Layout.double.parts (double.shortest .even rank)
  (Numeral.scale parts.1 parts.2).toBool

theorem scales_last : ∀ j : Nat, j < 3 → scales (double.infinite - 1 - j) := by
  decide +kernel

theorem scale_ok (h : double.Shortest .even rank d) (hpos : 0 < rank)
    (hrank : rank + 4 ≤ double.infinite) :
    ∃ r, Numeral.scale d.digits d.exponent = .ok r := by
  have hrounds := h.rounds (by decide) hpos
  have htop := toRat_lt_of_rounds hrounds hrank
  have hdigits := h.digits_pos hpos
  have hlt := h.digits_lt (by decide) hpos
  have hsig := double_significand_lt rank
  have hten := h.ten_pow_le hpos
  have hexponent : d.exponent ≤ 308 :=
    exponent_le_of_toRat
      ((mul_le_mul_of_nonneg_left hten two_pos.le).trans htop)
  rw [Numeral.scale]
  split
  · exact ⟨_, rfl⟩
  · next hneg =>
      have hk : d.exponent.natAbs ≤ 308 := by omega
      have hvalue : d.toRat = d.digits * 10 ^ d.exponent.natAbs := by
        rw [Decimal.toRat, Numeral.zpow_natAbs, if_neg hneg]
      have hproduct := product_lt (Numeral.whole_near hdigits (by omega)).2
        (Numeral.power_near hk).2 (hvalue ▸ htop) (by positivity)
      have hden := one_shiftLeft_pos (2 * double.lowest)
      have hfinite : (double.product (double.nearest d.digits 1)
          (Numeral.power d.exponent.natAbs)).val < double.infinite := by
        refine nearest_lt_infinite (by decide) (by decide) hden ?_
        rw [toRat_product, double_top]
        exact hproduct
      split
      · exact ⟨_, rfl⟩
      · rw [if_neg (by rw [Numeral.greatestPower]; omega),
          if_neg (Nat.not_le.mpr hfinite)]
        exact ⟨_, rfl⟩

/-- The decimal of a finite rank is read as some number. -/
theorem exists_scale (hpos : 0 < rank) (hlt : rank < double.infinite) :
    ∃ r, Numeral.scale (Layout.double.parts (double.shortest .even rank)).1
      (Layout.double.parts (double.shortest .even rank)).2 = .ok r := by
  by_cases hlast : rank + 4 ≤ double.infinite
  · have hshortest := shortest_spec (f := double) (by decide) hpos .even
    generalize double.shortest .even rank = d at *
    rw [Layout.parts]
    split
    · -- A division does not fail.
      exact ⟨_, rfl⟩
    · exact scale_ok hshortest hpos hlast
  · obtain ⟨j, hj, rfl⟩ : ∃ j, j < 3 ∧ rank = double.infinite - 1 - j :=
      ⟨double.infinite - 1 - rank, by omega, by omega⟩
    have hscales := scales_last j hj
    rw [scales] at hscales
    generalize Numeral.scale _ _ = result at *
    cases result with
    | ok r => exact ⟨r, rfl⟩
    | error _ => cases hscales

end BinaryFormat

namespace Layout

open BinaryFormat

/-- A finite 64-bit number is read back as some number. -/
theorem value_numeral_double {x : Double} (h : x.isFinite) :
    ∃ y : Double, (double.numeral x).value = .ok (.double y) := by
  obtain ⟨negative, rank⟩ := x
  by_cases hzero : rank = 0
  · subst hzero
    exact ⟨_, value_zero negative⟩
  · have hpos : 0 < rank.val := Nat.pos_of_ne_zero fun h => hzero (Fin.ext h)
    have hlt : rank.val < BinaryFormat.double.infinite := of_decide_eq_true h
    have hsize := double_parts_lt
      (shortest_spec (f := BinaryFormat.double) (by decide) hpos .even) hpos
    obtain ⟨r, hscale⟩ := exists_scale hpos hlt
    refine ⟨⟨negative, r⟩, ?_⟩
    rw [numeral, if_neg hzero]
    show (double.decimal negative
      (BinaryFormat.double.shortest .even rank)).value = _
    rw [value_decimal double rfl negative _ hsize, hscale]
    rfl

end Layout

end Flowgraph
