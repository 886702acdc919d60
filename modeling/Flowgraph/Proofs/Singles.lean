import Flowgraph.Proofs.Halfway

/-!
# 32-bit numbers read back

A finite 32-bit number is read back from its decimal as it was, although it is
read in three roundings: twice as a double, and then as a 32-bit number. The
decimal lies between the two points halfway to the next values, and so does the
double, which is nearly the same number. Where the grid of the decimal is fine,
the decimal is far from both points. Where it is coarse, it has few digits, and
decimals with few digits do not come close to halfway points; they lie on one,
or the six ranks whose decimals do are tried out.
-/

namespace Flowgraph

namespace BinaryFormat

variable {f : BinaryFormat}

/-- The point halfway between a value and the next one. -/
def middle (f : BinaryFormat) (rank : Nat) : ℚ :=
  (f.toRat rank + f.toRat (rank + 1)) / 2

/-- The exponent of the spacing of halfway points. -/
def halfExponent (rank : Nat) : Int := single.shift rank - 150

theorem single_gap (rank : Nat) :
    single.gap rank = 2 * 2 ^ halfExponent rank := by
  have hexp : halfExponent rank = (single.shift rank : Int) - (150 : Nat) := rfl
  rw [gap_eq, spacing, hexp, zpow_sub₀ (by norm_num), zpow_natCast,
    zpow_natCast]
  show 2 ^ single.shift rank / (2 : ℚ) ^ 149 = 2 * (_ / 2 ^ (149 + 1))
  rw [pow_succ]
  field_simp

theorem single_toRat (rank : Nat) : single.toRat rank =
    single.significand rank * (2 * 2 ^ halfExponent rank) := by
  rw [toRat_eq_gap, single_gap]

/-- The halfway points are odd multiples. -/
theorem middle_eq (rank : Nat) :
    single.middle rank =
      (2 * single.significand rank + 1 : Nat) * 2 ^ halfExponent rank := by
  rw [middle, single.toRat_next, single_gap, single_toRat]
  push_cast
  ring

theorem significand_lt (rank : Nat) : single.significand rank < 16777216 :=
  (single.rank_eq rank).2.1

theorem halfExponent_bounds {rank : Nat} (h : rank < single.infinite) :
    -150 ≤ halfExponent rank ∧ halfExponent rank ≤ 103 := by
  have hspan : single.span = 8388608 := rfl
  have hinfinite : single.infinite = 2139095040 := rfl
  rw [halfExponent, shift, hspan]
  omega

/-- From one rank to the next the spacing stays or doubles. -/
theorem halfExponent_pred {rank : Nat} (hpos : 0 < rank) :
    halfExponent (rank - 1) ≤ halfExponent rank ∧
      halfExponent rank ≤ halfExponent (rank - 1) + 1 := by
  have hspan : single.span = 8388608 := rfl
  rw [halfExponent, halfExponent, shift, shift, hspan]
  omega

theorem zpow_eq_spacing {q : Int} (hq : -150 ≤ q) :
    (2 : ℚ) ^ q = double.spacing (q + 1074).toNat := by
  have hexp : q = ((q + 1074).toNat : Int) - (1074 : Nat) := by omega
  conv_lhs => rw [hexp, zpow_sub₀ (by norm_num), zpow_natCast, zpow_natCast]
  rfl

theorem Near.lt_of_far {t y x b : ℚ} (h : Near t y x) (ht : 0 < t)
    (hfar : x < (b - x) * t) : y < b := by
  have hge := h.mul_le ht.le
  exact lt_of_mul_lt_mul_right (by linarith) ht.le

theorem Near.gt_of_far {t y x b : ℚ} (h : Near t y x) (ht : 0 < t)
    (hfar : x < (x - b) * t) : b < y := by
  have hle := h.le_mul ht.le
  exact lt_of_mul_lt_mul_right (by linarith) ht.le

/-- The decimal of a rank, and a number that it is read as: nearly the same, and
the same if it is a short binary number. -/
structure Reading (rank : Nat) (d : Decimal) (y : ℚ) : Prop where
  pos : 0 < rank
  lt_infinite : rank < single.infinite
  shortest : single.Shortest .even rank d
  near : Near (Halfway.tolerance d.exponent) y d.toRat
  exact : d.exponent.natAbs ≤ 22 → ∀ m t : Nat, m < 2 ^ 53 →
    d.toRat = m * double.spacing t → y = d.toRat

namespace Reading

variable {rank : Nat} {d : Decimal} {y : ℚ}

theorem middle_le (h : Reading rank d y) :
    single.middle (rank - 1) ≤ d.toRat := by
  have hlow := (h.shortest.rounds (by decide) h.pos).low h.pos
  have hrank : rank - 1 + 1 = rank := Nat.sub_add_cancel h.pos
  rw [middle, hrank]
  linarith

theorem le_middle (h : Reading rank d y) : d.toRat ≤ single.middle rank := by
  have hhigh := (h.shortest.rounds (by decide) h.pos).high
  rw [middle]
  linarith

theorem middle_lt (rank : Nat) :
    single.middle rank < 33554432 * 2 ^ halfExponent rank := by
  have hsig := significand_lt rank
  have hodd : ((2 * single.significand rank + 1 : Nat) : ℚ) < 33554432 := by
    exact_mod_cast (by omega : 2 * single.significand rank + 1 < 33554432)
  rw [middle_eq]
  exact mul_lt_mul_of_pos_right hodd (zpow_pos (by norm_num) _)

theorem tolerance_ge (k : Int) :
    (4503599627370495 : ℚ) ≤ Halfway.tolerance k := by
  rw [Halfway.tolerance]
  split <;> norm_num

theorem exponent_bounds {k q : Int} (hq : -150 ≤ q ∧ q ≤ 103)
    (hlow : (2 : ℚ) ^ q < 10 ^ k) (hhigh : (10 : ℚ) ^ k < 2 ^ (q + 25)) :
    -45 ≤ k ∧ k ≤ 38 := by
  constructor
  · by_contra hlt
    have hten : (10 : ℚ) ^ k ≤ 10 ^ (-46 : Int) :=
      zpow_le_zpow_right₀ (by norm_num) (by omega)
    have htwo : (2 : ℚ) ^ (-150 : Int) ≤ 2 ^ q :=
      zpow_le_zpow_right₀ (by norm_num) hq.1
    have hnum : (10 : ℚ) ^ (-46 : Int) < 2 ^ (-150 : Int) := by norm_num
    linarith
  · by_contra hgt
    have hten : (10 : ℚ) ^ (39 : Int) ≤ 10 ^ k :=
      zpow_le_zpow_right₀ (by norm_num) (by omega)
    have htwo : (2 : ℚ) ^ (q + 25) ≤ 2 ^ (128 : Int) :=
      zpow_le_zpow_right₀ (by norm_num) (by omega)
    have hnum : (2 : ℚ) ^ (128 : Int) < 10 ^ (39 : Int) := by norm_num
    linarith

/-- A halfway point on a grid of middling spacing: the number lies on the same
side of it as the decimal, or is the decimal. -/
theorem side (h : Reading rank d y) {r : Nat} (hr : r < single.infinite)
    (hlow : (2 : ℚ) ^ halfExponent r < 10 ^ d.exponent)
    (hhigh : (10 : ℚ) ^ d.exponent < 2 ^ (halfExponent r + 25))
    (hskip : 2 * single.significand r + 1 ≠
      Halfway.skipped d.exponent (halfExponent r)) :
    (y < single.middle r ∧ d.toRat < single.middle r) ∨
      (single.middle r < y ∧ single.middle r < d.toRat) ∨ y = d.toRat := by
  have hq := halfExponent_bounds hr
  have hsig := significand_lt r
  have hsame := Halfway.same_side (exponent_bounds hq hlow hhigh) hq hlow hhigh
    (Nat.succ_pos _) (by omega) hskip h.near
  rw [← middle_eq] at hsame
  refine hsame.imp_right (Or.imp_right fun ⟨hsmall, heq⟩ => ?_)
  refine h.exact hsmall (2 * single.significand r + 1)
    (halfExponent r + 1074).toNat (by omega) ?_
  rw [← zpow_eq_spacing hq.1, ← middle_eq]
  exact heq

/-- How values and halfway points lie around a rank. -/
structure Spaced (rank : Nat) : Prop where
  value_eq : single.toRat rank =
    single.middle (rank - 1) + 2 ^ halfExponent (rank - 1)
  prev_eq : single.toRat (rank - 1) =
    single.toRat rank - 2 * 2 ^ halfExponent (rank - 1)
  next_eq : single.toRat (rank + 1) =
    single.toRat rank + 2 * 2 ^ halfExponent rank
  unit_pos : (0 : ℚ) < 2 ^ halfExponent (rank - 1)
  unit_le : (2 : ℚ) ^ halfExponent (rank - 1) ≤ 2 ^ halfExponent rank
  le_unit : (2 : ℚ) ^ halfExponent rank ≤ 2 * 2 ^ halfExponent (rank - 1)

theorem spaced {rank : Nat} (hpos : 0 < rank) : Spaced rank := by
  obtain ⟨hle, hge⟩ := halfExponent_pred hpos
  have hgap := single_gap (rank - 1)
  rw [gap, Nat.sub_add_cancel hpos] at hgap
  constructor
  · rw [middle, Nat.sub_add_cancel hpos]
    linarith
  · linarith
  · rw [← single_gap, gap]
    ring
  · exact zpow_pos (by norm_num) _
  · exact zpow_le_zpow_right₀ (by norm_num) hle
  · rw [← zpow_one_add₀ (by norm_num), Int.add_comm]
    exact zpow_le_zpow_right₀ (by norm_num) hge

/-- A decimal that is far from the lower halfway point is read as a number on
the same side. -/
theorem above_of_far (h : Reading rank d y)
    (hdist : 2 ^ halfExponent (rank - 1) / 2 ≤
      d.toRat - single.middle (rank - 1)) : single.middle (rank - 1) < y := by
  have htop := lt_of_le_of_lt h.le_middle (middle_lt rank)
  have hlarge := tolerance_ge d.exponent
  obtain ⟨-, -, -, hunit, -, hspacing⟩ := spaced h.pos
  refine h.near.gt_of_far (by linarith) ?_
  calc d.toRat < 2 ^ halfExponent (rank - 1) / 2 * 4503599627370495 := by
        linarith
    _ ≤ (d.toRat - single.middle (rank - 1)) * Halfway.tolerance d.exponent :=
      mul_le_mul hdist hlarge (by norm_num) (by linarith)

/-- The same for the upper halfway point. -/
theorem below_of_far (h : Reading rank d y)
    (hdist : 2 ^ halfExponent rank / 2 ≤ single.middle rank - d.toRat) :
    y < single.middle rank := by
  have htop := lt_of_le_of_lt h.le_middle (middle_lt rank)
  have hlarge := tolerance_ge d.exponent
  have hunit : (0 : ℚ) < 2 ^ halfExponent rank := zpow_pos (by norm_num) _
  refine h.near.lt_of_far (by linarith) ?_
  calc d.toRat < 2 ^ halfExponent rank / 2 * 4503599627370495 := by linarith
    _ ≤ (single.middle rank - d.toRat) * Halfway.tolerance d.exponent :=
      mul_le_mul hdist hlarge (by norm_num) (by linarith)

/-- The number lies above the lower halfway point. -/
theorem above (h : Reading rank d y)
    (hskip : 2 * single.significand (rank - 1) + 1 ≠
      Halfway.skipped d.exponent (halfExponent (rank - 1))) :
    single.middle (rank - 1) < y ∨ y = d.toRat := by
  have hpos := h.pos
  have hprev : rank - 1 < single.infinite := by
    have := h.lt_infinite
    omega
  obtain ⟨hvalue, -, hnext, hunit, hspacing, -⟩ := spaced hpos
  rcases le_or_gt ((10 : ℚ) ^ d.exponent) (2 ^ halfExponent (rank - 1))
    with hfine | hcoarse
  -- On a fine grid the chosen point keeps away from the end of the interval.
  · refine .inl (h.above_of_far ?_)
    rcases gridPoint?_low (by decide) hpos h.shortest.point with hnear | hnear
    · change 2 * single.toRat rank ≤ 2 * d.toRat + _ at hnear
      linarith
    · change single.toRat rank + single.toRat (rank + 1) ≤
        2 * d.toRat + _ at hnear
      linarith
  · rcases lt_or_ge ((10 : ℚ) ^ d.exponent) (2 ^ (halfExponent (rank - 1) + 25))
      with hmiddle | hgreat
    · rcases h.side hprev hcoarse hmiddle hskip with hlt | hgt | heq
      · exact absurd hlt.2 (not_lt.mpr h.middle_le)
      · exact .inl hgt.1
      · exact .inr heq
    -- The first point of a grid this coarse is well above the halfway point.
    · refine .inl (h.above_of_far ?_)
      have hodd := middle_eq (rank - 1)
      have hsig := significand_lt (rank - 1)
      have hm : ((2 * single.significand (rank - 1) + 1 : Nat) : ℚ) ≤
          33554431 := by
        exact_mod_cast (by omega :
          2 * single.significand (rank - 1) + 1 ≤ 33554431)
      have hle := mul_le_mul_of_nonneg_right hm hunit.le
      rw [← hodd] at hle
      rw [zpow_add₀ (by norm_num)] at hgreat
      have hten := h.shortest.ten_pow_le hpos
      norm_num at hgreat
      linarith

/-- The number lies below the upper halfway point. -/
theorem below (h : Reading rank d y)
    (hskip : 2 * single.significand rank + 1 ≠
      Halfway.skipped d.exponent (halfExponent rank)) :
    y < single.middle rank ∨ y = d.toRat := by
  have hpos := h.pos
  have htop := middle_lt rank
  obtain ⟨-, hprev, hnext, hunit, hspacing, hspacing'⟩ := spaced hpos
  have hmid : single.middle rank =
      single.toRat rank + 2 ^ halfExponent rank := by
    rw [middle, hnext]
    ring
  rcases le_or_gt ((10 : ℚ) ^ d.exponent) (2 ^ halfExponent rank)
    with hfine | hcoarse
  · refine .inl (h.below_of_far ?_)
    rcases gridPoint?_high (by decide) hpos h.shortest.point with hnear | hnear
    · change 2 * d.toRat ≤ _ at hnear
      linarith
    · change 2 * d.toRat ≤ _ at hnear
      linarith
  · rcases lt_or_ge ((10 : ℚ) ^ d.exponent) (2 ^ (halfExponent rank + 25))
      with hmiddle | hgreat
    · rcases h.side h.lt_infinite hcoarse hmiddle hskip with hlt | hgt | heq
      · exact .inl hlt.1
      · exact absurd hgt.2 (not_lt.mpr h.le_middle)
      · exact .inr heq
    -- The first point of a grid this coarse is beyond the interval.
    · have hhigh := h.le_middle
      rw [zpow_add₀ (by norm_num)] at hgreat
      have hten := h.shortest.ten_pow_le hpos
      norm_num at hgreat
      linarith

/-- The number is rounded to the rank of the decimal. -/
theorem rounds (h : Reading rank d y)
    (hlow : 2 * single.significand (rank - 1) + 1 ≠
      Halfway.skipped d.exponent (halfExponent (rank - 1)))
    (hhigh : 2 * single.significand rank + 1 ≠
      Halfway.skipped d.exponent (halfExponent rank)) :
    single.Rounds rank y := by
  have hself : y = d.toRat → single.Rounds rank y := fun heq =>
    heq ▸ h.shortest.rounds (by decide) h.pos
  rcases h.above hlow with habove | heq
  · rcases h.below hhigh with hbelow | heq
    · refine rounds_of_lt (fun _ => ?_) ?_
      · rw [middle, Nat.sub_add_cancel h.pos] at habove
        linarith
      · rw [middle] at hbelow
        linarith
    · exact hself heq
  · exact hself heq

end Reading

/-! ## From the decimal to the double -/

section

variable {rank : Nat} {d : Decimal}

theorem Shortest.lt_top (h : single.Shortest .even rank d) (hpos : 0 < rank)
    (hlt : rank < single.infinite) : d.toRat < 2 ^ 128 := by
  have hhigh := (h.rounds (by decide) hpos).high
  have hmiddle := Reading.middle_lt rank
  have htop : (2 : ℚ) ^ halfExponent rank ≤ 2 ^ (103 : Int) :=
    zpow_le_zpow_right₀ (by norm_num) (halfExponent_bounds hlt).2
  have hnum : (33554432 : ℚ) * 2 ^ (103 : Int) = 2 ^ 128 := by norm_num
  rw [middle] at hmiddle
  linarith

theorem Shortest.bottom_le (h : single.Shortest .even rank d) (hpos : 0 < rank)
    (hlt : rank < single.infinite) : 1 ≤ d.toRat * 2 ^ 150 := by
  have hlow := (h.rounds (by decide) hpos).low hpos
  have hnonneg := single.toRat_nonneg (rank - 1)
  have hsig : (1 : ℚ) ≤ single.significand rank := by
    exact_mod_cast single.significand_pos hpos
  have hunit : (2 : ℚ) ^ (-150 : Int) ≤ 2 ^ halfExponent rank :=
    zpow_le_zpow_right₀ (by norm_num) (halfExponent_bounds hlt).1
  have hpos : (0 : ℚ) < 2 ^ halfExponent rank := zpow_pos (by norm_num) _
  have hvalue : 2 * 2 ^ halfExponent rank ≤ single.toRat rank := by
    rw [single_toRat]
    exact le_mul_of_one_le_left (by linarith) hsig
  have hnum : (2 : ℚ) ^ (-150 : Int) * 2 ^ 150 = 1 := by norm_num
  rw [← hnum]
  exact mul_le_mul_of_nonneg_right (by linarith) (by norm_num)

theorem Shortest.exponent_le (h : single.Shortest .even rank d)
    (hpos : 0 < rank) (hlt : rank < single.infinite) : d.exponent ≤ 38 := by
  have htop := h.lt_top hpos hlt
  have hten := h.ten_pow_le hpos
  by_contra hgt
  have hgreat : (10 : ℚ) ^ (39 : Int) ≤ 10 ^ d.exponent :=
    zpow_le_zpow_right₀ (by norm_num) (by omega)
  have hnum : (2 : ℚ) ^ 128 < 10 ^ (39 : Int) := by norm_num
  linarith

theorem parts_lt (h : single.Shortest .even rank d) (hpos : 0 < rank) :
    (Layout.single.parts d).1 < 2 ^ 53 := by
  have hdigits := h.digits_lt (by decide) hpos
  have hsig := significand_lt rank
  refine Layout.parts_lt (k := 13) (fun point hpoint => ?_) (by decide)
    (by omega)
  simp only [Layout.single, Bool.and_eq_true, decide_eq_true_iff] at hpoint
  exact hpoint.2

theorem parts_pos (h : single.Shortest .even rank d) (hpos : 0 < rank) :
    0 < (Layout.single.parts d).1 := by
  have hdigits := h.digits_pos hpos
  rw [Layout.parts]
  split
  · exact Nat.mul_pos hdigits (Nat.pow_pos (by decide))
  · exact hdigits

theorem parts_small (h : d.exponent.natAbs ≤ 22) :
    (Layout.single.parts d).2.natAbs ≤ 22 := by
  rw [Layout.parts]
  split
  · show (-1 : Int).natAbs ≤ 22
    decide
  · exact h

theorem parts_le (h : single.Shortest .even rank d) (hpos : 0 < rank)
    (hlt : rank < single.infinite) :
    (Layout.single.parts d).2.natAbs ≤ 308 := by
  have hexponent := h.exponent_le hpos hlt
  have hplaces : -150 ≤ d.exponent := h.places_le
  rw [Layout.parts]
  split
  · show (-1 : Int).natAbs ≤ 308
    decide
  · show d.exponent.natAbs ≤ 308
    omega

/-- The double that the decimal of a rank is read as. -/
theorem exists_reading (h : single.Shortest .even rank d) (hpos : 0 < rank)
    (hlt : rank < single.infinite) :
    ∃ r, Numeral.scale (Layout.single.parts d).1 (Layout.single.parts d).2 =
        .ok r ∧ Reading rank d (double.toRat r) := by
  have hparts := Layout.single.parts_toRat d
  have hbottom := h.bottom_le hpos hlt
  have hnonneg : 0 ≤ d.toRat := by
    have hscale : (0 : ℚ) < 2 ^ 150 := by positivity
    exact (pos_of_mul_pos_left (by linarith) hscale.le).le
  have hlow : 1 ≤ d.toRat * 2 ^ 1000 :=
    hbottom.trans (mul_le_mul_of_nonneg_left
      (pow_le_pow_right₀ (by norm_num) (by decide)) hnonneg)
  have hhigh : d.toRat ≤ 2 ^ 900 :=
    (h.lt_top hpos hlt).le.trans (pow_le_pow_right₀ (by norm_num) (by decide))
  rw [← hparts] at hlow hhigh
  obtain ⟨r, hscale, hnear, hexact⟩ := Numeral.scale_near (parts_pos h hpos)
    (parts_lt h hpos) (parts_le h hpos hlt) hlow hhigh
  rw [hparts] at hnear hexact
  refine ⟨r, hscale, hpos, hlt, h, ?_, fun hk => (hexact (parts_small hk)).2⟩
  rw [Halfway.tolerance]
  split
  · next hk =>
      refine (hexact (parts_small hk)).1.mono ?_
      norm_num
  · refine hnear.mono ?_
    norm_num

/-! ## Every rank -/

/-- Whether a rank is read back, tried out. -/
def rereads (rank : Nat) : Bool :=
  let parts := Layout.single.parts (single.shortest .even rank)
  parts.1 < UInt64.size &&
    match Numeral.scale parts.1 parts.2 with
    | .ok r =>
      (single.nearest (double.steps r) (1 <<< double.lowest)).val = rank
    | .error _ => false

/-- The ranks below the halfway points that were left out. -/
def closeCalls : List Nat :=
  [42 * single.span + 11420669, 43 * single.span + 11420669,
   100 * single.span + 14437329]

theorem rereads_closeCalls : ∀ r ∈ closeCalls,
    rereads r = true ∧ rereads (r + 1) = true := by
  decide +kernel

/-- A halfway point that was left out lies above one of these ranks. -/
theorem mem_closeCalls {k : Int}
    (h : 2 * single.significand rank + 1 =
      Halfway.skipped k (halfExponent rank)) : rank ∈ closeCalls := by
  obtain ⟨hrank, -, -⟩ := single.rank_eq rank
  rw [halfExponent, Halfway.skipped] at h
  split at h
  · next hk =>
      have hsig : single.significand rank = 11420669 := by omega
      rw [hsig] at hrank
      rcases hk.2 with hshift | hshift
      · have hs : single.shift rank = 42 := by omega
        rw [hs] at hrank
        rw [← hrank]
        exact List.mem_cons_self
      · have hs : single.shift rank = 43 := by omega
        rw [hs] at hrank
        rw [← hrank]
        exact List.mem_cons_of_mem _ List.mem_cons_self
  · split at h
    · next hk =>
        have hsig : single.significand rank = 14437329 := by omega
        have hs : single.shift rank = 100 := by omega
        rw [hsig, hs] at hrank
        rw [← hrank]
        exact List.mem_cons_of_mem _ (List.mem_cons_of_mem _ List.mem_cons_self)
    · omega

/-- The decimal of a rank is read as a double that is rounded to that rank. -/
theorem read_shortest (hpos : 0 < rank) (hlt : rank < single.infinite) :
    (Layout.single.parts (single.shortest .even rank)).1 < UInt64.size ∧
      ∃ r, Numeral.scale (Layout.single.parts (single.shortest .even rank)).1
          (Layout.single.parts (single.shortest .even rank)).2 = .ok r ∧
        (single.nearest (double.steps r) (1 <<< double.lowest)).val = rank := by
  by_cases hread : rereads rank = true
  · simp only [rereads, Bool.and_eq_true, decide_eq_true_iff] at hread
    refine ⟨hread.1, ?_⟩
    have hmatch := hread.2
    split at hmatch
    · next r hr => exact ⟨r, hr, of_decide_eq_true hmatch⟩
    · cases hmatch
  · have hshortest := shortest_spec (f := single) (by decide) hpos .even
    obtain ⟨r, hscale, hreading⟩ := exists_reading hshortest hpos hlt
    have hsize := parts_lt hshortest hpos
    refine ⟨by rw [UInt64.size]; omega, r, hscale, ?_⟩
    have hrounds := hreading.rounds (fun h => hread ?_)
      (fun h => hread (rereads_closeCalls _ (mem_closeCalls h)).1)
    · refine nearest_eq (by decide) (one_shiftLeft_pos _) hlt.le ?_
      rw [toRat_steps]
      exact hrounds
    · have h := (rereads_closeCalls _ (mem_closeCalls h)).2
      rwa [Nat.sub_add_cancel hpos] at h

end

end BinaryFormat

namespace Layout

open BinaryFormat

/-- Zero is read as zero, whatever its sign. -/
theorem value_zero (negative : Bool) :
    Numeral.value ⟨negative, ['0'], some ['0'], none⟩ =
      .ok (.double ⟨negative, 0⟩) := by
  have hdivide : Numeral.divide (BinaryFormat.double.nearest 0 1) 1 = 0 := by
    decide +kernel
  have hscale : Numeral.scale 0 (-1) = .ok 0 := congrArg Except.ok hdivide
  rw [Numeral.value_of_lt (n := 0) (e := -1) (.inl (Option.some_ne_none _)) rfl
    (by decide) rfl, hscale]
  rfl

/-- A finite 32-bit number is read back as a double that is rounded to it. -/
theorem value_numeral_single {x : Single} (h : x.isFinite) :
    ∃ y : Double, (single.numeral x).value = .ok (.double y) ∧
      y.convert .single = x := by
  obtain ⟨negative, rank⟩ := x
  by_cases hzero : rank = 0
  · subst hzero
    have hrank : BinaryFormat.single.nearest
        (BinaryFormat.double.steps (0 : BinaryFormat.double.Rank))
        (1 <<< BinaryFormat.double.lowest) = 0 := by
      decide +kernel
    refine ⟨⟨negative, 0⟩, value_zero negative, ?_⟩
    rw [Binary.convert]
    simp only [hrank]
  · have hpos : 0 < rank.val := Nat.pos_of_ne_zero fun h => hzero (Fin.ext h)
    have hlt : rank.val < BinaryFormat.single.infinite := of_decide_eq_true h
    obtain ⟨hsize, r, hscale, hrank⟩ := read_shortest hpos hlt
    refine ⟨⟨negative, r⟩, ?_, congrArg (Binary.mk negative) (Fin.ext hrank)⟩
    rw [numeral, if_neg hzero]
    show (single.decimal negative
      (BinaryFormat.single.shortest .even rank)).value = _
    rw [value_decimal single rfl negative _ hsize, hscale]
    rfl

end Layout

end Flowgraph
