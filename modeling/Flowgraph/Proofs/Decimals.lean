import Flowgraph.Proofs.Layouts
import Flowgraph.Proofs.Rounding

/-!
# Shortest decimals

The decimal that is written for a rank is rounded to that rank again. The
interval that the grids are tried on is the set of the numbers that round to the
rank, so every point that is found in it will do, and there is one: a grid no
coarser than half the spacing has a point in the interval, and the last grid is
one.

What else is needed of the decimal follows from the grids that were tried
before. It has few digits, since a grid ten times as coarse would otherwise have
had a point, and on a grid that is fine enough it lies well inside the interval.
-/

namespace Flowgraph

/-- The number that a decimal stands for. -/
def Decimal.toRat (d : Decimal) : ℚ := d.digits * 10 ^ d.exponent

theorem zpow_eq_div {a : ℚ} (ha : a ≠ 0) (k : Int) :
    a ^ k = a ^ k.toNat / a ^ (-k).toNat := by
  have hk : k = (k.toNat : Int) - ((-k).toNat : Int) := by omega
  conv_lhs => rw [hk, zpow_sub₀ ha, zpow_natCast, zpow_natCast]

namespace BinaryFormat

variable {f : BinaryFormat}

/-! ## The interval of a rank -/

theorem rank_eq (f : BinaryFormat) (rank : Nat) :
    f.shift rank * f.span + f.significand rank = rank ∧
      f.significand rank < 2 * f.span ∧
      (0 < f.shift rank → f.span ≤ f.significand rank) := by
  have hspan := f.span_pos
  rw [shift, significand]
  split
  · next hlow =>
      rw [Nat.div_eq_of_lt hlow]
      refine ⟨by simp, by omega, fun h => absurd h (by simp)⟩
  · next hhigh =>
      have hmod := Nat.mod_lt rank hspan
      have hdiv := Nat.div_add_mod' rank f.span
      have hpos : 0 < rank / f.span := Nat.div_pos (by omega) hspan
      refine ⟨?_, by omega, fun _ => by omega⟩
      rw [Nat.sub_mul, Nat.one_mul]
      have hle : f.span ≤ rank / f.span * f.span :=
        Nat.le_mul_of_pos_left _ hpos
      omega

theorem steps_eq (f : BinaryFormat) (rank : Nat) :
    f.steps rank = f.significand rank * 2 ^ f.shift rank := by
  rw [steps, Nat.shiftLeft_eq]

theorem steps_succ (f : BinaryFormat) (rank : Nat) :
    f.steps (rank + 1) = (f.significand rank + 1) * 2 ^ f.shift rank := by
  obtain ⟨hrank, hlt, hfull⟩ := f.rank_eq rank
  have h := f.steps_shift (s := f.shift rank) (n := f.significand rank + 1)
    (fun hs => Nat.le_succ_of_le (hfull hs)) (by omega)
  rwa [← Nat.add_assoc, hrank] at h

/-- The value of the rank before. Below a power of two the values lie closer
together, unless it is the first one. -/
theorem steps_pred (f : BinaryFormat) {rank : Nat} (hpos : 0 < rank) :
    2 * f.steps (rank - 1) +
        (if f.significand rank = f.span ∧ 0 < f.shift rank then
          2 ^ f.shift rank else 2 * 2 ^ f.shift rank) =
      2 * f.steps rank := by
  obtain ⟨hrank, hlt, hfull⟩ := f.rank_eq rank
  have hm := f.significand_pos hpos
  have hspan := f.span_pos
  rw [f.steps_eq rank]
  generalize f.significand rank = m at *
  generalize f.shift rank = s at *
  split
  · next hpower =>
      obtain ⟨rfl, hs⟩ := hpower
      obtain ⟨t, rfl⟩ := Nat.exists_eq_add_of_lt hs
      have hprev : rank - 1 = t * f.span + (2 * f.span - 1) := by
        rw [← hrank, Nat.zero_add, Nat.add_mul]
        omega
      obtain ⟨n, hn⟩ : ∃ n, 2 * f.span = n + 1 := ⟨2 * f.span - 1, by omega⟩
      rw [hprev, f.steps_shift (fun _ => by omega) (by omega), Nat.zero_add,
        Nat.pow_succ, hn, Nat.add_sub_cancel]
      calc 2 * (n * 2 ^ t) + 2 ^ t * 2 = (n + 1) * 2 ^ t * 2 := by ring
        _ = 2 * (f.span * (2 ^ t * 2)) := by
          rw [← hn]
          ring
  · next hpower =>
      obtain ⟨n, rfl⟩ := Nat.exists_eq_add_of_lt hm
      have hprev : rank - 1 = s * f.span + n := by omega
      have hlow (hs : 0 < s) : f.span ≤ n := by
        have := hfull hs
        omega
      rw [hprev, f.steps_shift hlow (by omega)]
      ring

theorem interval_low (f : BinaryFormat) {rank : Nat} (hpos : 0 < rank) :
    (f.interval rank).low = 2 * (f.steps (rank - 1) + f.steps rank) := by
  have hpred := f.steps_pred hpos
  have hvalue : 2 * f.significand rank * (2 * 2 ^ f.shift rank) =
      4 * f.steps rank := by
    rw [f.steps_eq]
    ring
  rw [interval]
  simp only [Nat.shiftLeft_eq]
  rw [hvalue]
  split at hpred
  · next hpower =>
      rw [if_pos hpower]
      omega
  · next hpower =>
      rw [if_neg hpower]
      omega

theorem interval_value (f : BinaryFormat) (rank : Nat) :
    (f.interval rank).value = 4 * f.steps rank := by
  rw [interval, f.steps_eq]
  simp only [Nat.shiftLeft_eq]
  ring

theorem interval_high (f : BinaryFormat) (rank : Nat) :
    (f.interval rank).high = 2 * (f.steps rank + f.steps (rank + 1)) := by
  rw [interval, f.steps_eq, f.steps_succ]
  simp only [Nat.shiftLeft_eq]
  ring

theorem interval_closed (hp : 2 ≤ f.precision) (rank : Nat) :
    (f.interval rank).closed = true ↔ rank % 2 = 0 := by
  obtain ⟨hrank, -, -⟩ := f.rank_eq rank
  have heven : rank % 2 = f.significand rank % 2 := by
    conv_lhs => rw [← hrank]
    rw [Nat.add_mod, Nat.mul_mod, span_even hp]
    simp
  rw [heven, interval]
  exact decide_eq_true_iff

/-! ## The points of a grid

A point is compared with quarter steps; here these are comparisons of
numbers. -/

/-- A point of a grid as a quotient of quarter steps. -/
theorem toRat_grid (f : BinaryFormat) (k : Int) (d : Nat) :
    (Decimal.mk d k).toRat =
      (d * Nat.pow 10 k.toNat <<< (f.lowest + 2) : Nat) /
        ((Nat.pow 10 (-k).toNat : Nat) * 2 ^ (f.lowest + 2)) := by
  rw [Decimal.toRat, zpow_eq_div (by norm_num), Nat.shiftLeft_eq, Nat.pow_eq,
    Nat.pow_eq]
  push_cast
  field_simp

theorem grid_le_iff (f : BinaryFormat) (k : Int) (a d : Nat) :
    d * Nat.pow 10 k.toNat <<< (f.lowest + 2) ≤ a * Nat.pow 10 (-k).toNat ↔
      (Decimal.mk d k).toRat ≤ a / 2 ^ (f.lowest + 2) := by
  have hscale : (0 : ℚ) < (Nat.pow 10 (-k).toNat : Nat) := by
    exact_mod_cast Nat.pow_pos (by decide)
  rw [f.toRat_grid, div_mul_eq_div_div,
    div_le_div_iff_of_pos_right (by positivity), div_le_iff₀ hscale]
  exact_mod_cast Iff.rfl

theorem le_grid_iff (f : BinaryFormat) (k : Int) (a d : Nat) :
    a * Nat.pow 10 (-k).toNat ≤ d * Nat.pow 10 k.toNat <<< (f.lowest + 2) ↔
      a / 2 ^ (f.lowest + 2) ≤ (Decimal.mk d k).toRat := by
  have hscale : (0 : ℚ) < (Nat.pow 10 (-k).toNat : Nat) := by
    exact_mod_cast Nat.pow_pos (by decide)
  rw [f.toRat_grid, div_mul_eq_div_div,
    div_le_div_iff_of_pos_right (by positivity), le_div_iff₀ hscale]
  exact_mod_cast Iff.rfl

/-- The ends of an interval lie halfway to the values of the next ranks. -/
theorem two_mul_quarter (f : BinaryFormat) (a b : Nat) :
    2 * (((2 * (f.steps a + f.steps b) : Nat) : ℚ) / 2 ^ (f.lowest + 2)) =
      f.toRat a + f.toRat b := by
  rw [toRat, toRat, pow_add]
  push_cast
  field_simp

/-- The points of a grid that lie in the interval of a rank are the ones that
are rounded to it. -/
theorem holds_iff (hp : 2 ≤ f.precision) {rank : Nat} (hpos : 0 < rank)
    (k : Int) (d : Nat) :
    (f.interval rank).holds (Nat.pow 10 (-k).toNat)
        (Nat.pow 10 k.toNat <<< (f.lowest + 2)) d = true ↔
      f.Rounds rank (Decimal.mk d k).toRat := by
  have hlow := f.two_mul_quarter (rank - 1) rank
  have hhigh := f.two_mul_quarter rank (rank + 1)
  rw [← f.interval_low hpos] at hlow
  rw [← f.interval_high rank] at hhigh
  have hclosed := interval_closed hp rank
  rw [Interval.holds]
  split
  · next h =>
      have heven := hclosed.mp h
      rw [Bool.and_eq_true, decide_eq_true_iff, decide_eq_true_iff,
        f.le_grid_iff, f.grid_le_iff]
      constructor
      · rintro ⟨hl, hh⟩
        exact ⟨fun _ => by linarith, by linarith, fun _ _ => heven,
          fun _ => heven⟩
      · intro h
        exact ⟨by linarith [h.low hpos], by linarith [h.high]⟩
  · next h =>
      have hodd : ¬ rank % 2 = 0 := fun heven => h (hclosed.mpr heven)
      rw [Bool.and_eq_true, decide_eq_true_iff, decide_eq_true_iff,
        ← Nat.not_le, ← Nat.not_le, f.grid_le_iff, f.le_grid_iff, not_le,
        not_le]
      constructor
      · rintro ⟨hl, hh⟩
        exact ⟨fun _ => by linarith, by linarith, fun _ _ => by linarith,
          fun _ => by linarith⟩
      · intro h
        constructor
        · by_contra hle
          exact hodd (h.even_low hpos (by linarith [h.low hpos]))
        · by_contra hle
          exact hodd (h.even_high (by linarith [h.high]))

/-! ## The point that is chosen -/

theorem toRat_interval_value (f : BinaryFormat) (rank : Nat) :
    ((f.interval rank).value : ℚ) / 2 ^ (f.lowest + 2) = f.toRat rank := by
  rw [f.interval_value, toRat, pow_add]
  push_cast
  field_simp
  ring

theorem toRat_add (a b : Nat) (k : Int) :
    (Decimal.mk (a + b) k).toRat =
      (Decimal.mk a k).toRat + (Decimal.mk b k).toRat := by
  rw [Decimal.toRat, Decimal.toRat, Decimal.toRat]
  push_cast
  ring

/-- The points of the grid `10 ^ k` on both sides of the value of a rank. -/
structure Beside (f : BinaryFormat) (rank : Nat) (k : Int) (b : Nat) :
    Prop where
  le : (Decimal.mk b k).toRat ≤ f.toRat rank
  lt : f.toRat rank < (Decimal.mk (b + 1) k).toRat

/-- The choice on a grid: the points next to the value are looked at, and of
two that will do the nearer one is taken. -/
theorem gridPoint?_cases (hp : 2 ≤ f.precision) {rank : Nat} (hpos : 0 < rank)
    (tie : Tie) (k : Int) :
    ∃ b, f.Beside rank k b ∧
      ((f.gridPoint? tie (f.interval rank) k = none ∧
          ¬ f.Rounds rank (Decimal.mk b k).toRat ∧
          ¬ f.Rounds rank (Decimal.mk (b + 1) k).toRat) ∨
        (f.gridPoint? tie (f.interval rank) k = some b ∧
          f.Rounds rank (Decimal.mk b k).toRat ∧
          (f.Rounds rank (Decimal.mk (b + 1) k).toRat → 2 * f.toRat rank ≤
            (Decimal.mk b k).toRat + (Decimal.mk (b + 1) k).toRat)) ∨
        (f.gridPoint? tie (f.interval rank) k = some (b + 1) ∧
          f.Rounds rank (Decimal.mk (b + 1) k).toRat ∧
          (f.Rounds rank (Decimal.mk b k).toRat →
            (Decimal.mk b k).toRat + (Decimal.mk (b + 1) k).toRat ≤
              2 * f.toRat rank))) := by
  simp only [← holds_iff hp hpos]
  have hvalue := f.toRat_interval_value rank
  have hunit : 0 < Nat.pow 10 k.toNat <<< (f.lowest + 2) := by
    rw [Nat.shiftLeft_eq]
    exact Nat.mul_pos (Nat.pow_pos (by decide)) (Nat.two_pow_pos _)
  have hle := Nat.div_mul_le_self
    ((f.interval rank).value * Nat.pow 10 (-k).toNat)
    (Nat.pow 10 k.toNat <<< (f.lowest + 2))
  have hlt := Nat.lt_div_mul_add (a := (f.interval rank).value *
    Nat.pow 10 (-k).toNat) hunit
  simp only [gridPoint?]
  generalize (f.interval rank).value * Nat.pow 10 (-k).toNat /
    Nat.pow 10 k.toNat <<< (f.lowest + 2) = b at *
  rw [← Nat.succ_mul, ← Nat.not_le, f.grid_le_iff, hvalue, not_le] at hlt
  rw [f.grid_le_iff, hvalue] at hle
  refine ⟨b, ⟨hle, hlt⟩, ?_⟩
  have hdouble : (((2 * (f.interval rank).value : Nat) : ℚ)) /
      2 ^ (f.lowest + 2) = 2 * f.toRat rank := by
    rw [← hvalue]
    push_cast
    ring
  have hmiddle := f.grid_le_iff k (2 * (f.interval rank).value) (b + (b + 1))
  have hmiddle' := f.le_grid_iff k (2 * (f.interval rank).value) (b + (b + 1))
  rw [toRat_add, hdouble, Nat.mul_assoc] at hmiddle hmiddle'
  split
  · next hb ha =>
      exact .inl ⟨rfl, Bool.eq_false_iff.mp hb, Bool.eq_false_iff.mp ha⟩
  · next hb ha =>
      exact .inr (.inl ⟨rfl, hb, fun h => absurd h (Bool.eq_false_iff.mp ha)⟩)
  · next hb ha =>
      exact .inr (.inr ⟨rfl, ha, fun h => absurd h (Bool.eq_false_iff.mp hb)⟩)
  · next hb ha =>
      split
      · next h => exact .inr (.inl ⟨rfl, hb, fun _ => hmiddle'.mp h.le⟩)
      · next h =>
          have hge := hmiddle.mp (Nat.not_lt.mp h)
          split
          · exact .inr (.inr ⟨rfl, ha, fun _ => hge⟩)
          · next h' =>
              have hle := hmiddle'.mp (Nat.not_lt.mp h')
              cases tie with
              | up => exact .inr (.inr ⟨rfl, ha, fun _ => hge⟩)
              | even =>
                  dsimp only
                  split
                  · exact .inr (.inl ⟨rfl, hb, fun _ => hle⟩)
                  · exact .inr (.inr ⟨rfl, ha, fun _ => hge⟩)

theorem rounds_of_gridPoint? (hp : 2 ≤ f.precision) {rank : Nat}
    (hpos : 0 < rank) {tie : Tie} {k : Int} {d : Nat}
    (h : f.gridPoint? tie (f.interval rank) k = some d) :
    f.Rounds rank (Decimal.mk d k).toRat :=
  (holds_iff hp hpos k d).mp (holds_of_gridPoint? h)

/-- The distance between two points of a grid. -/
theorem toRat_succ (d : Nat) (k : Int) :
    (Decimal.mk (d + 1) k).toRat = (Decimal.mk d k).toRat + 10 ^ k := by
  rw [Decimal.toRat, Decimal.toRat]
  push_cast
  ring

/-- How far the next value is. -/
def gap (f : BinaryFormat) (rank : Nat) : ℚ := f.toRat (rank + 1) - f.toRat rank

theorem toRat_next (f : BinaryFormat) (rank : Nat) :
    f.toRat (rank + 1) = f.toRat rank + f.gap rank := by
  rw [gap]
  ring

/-- A grid no coarser than half the spacing has a point in the interval. -/
theorem gridPoint?_ne_none (hp : 2 ≤ f.precision) {rank : Nat} (hpos : 0 < rank)
    (tie : Tie) {k : Int} (hk : 2 * 10 ^ k ≤ f.gap rank) :
    f.gridPoint? tie (f.interval rank) k ≠ none := by
  intro hnone
  obtain ⟨b, hbeside, ⟨-, hb, ha⟩ | ⟨h, -⟩ | ⟨h, -⟩⟩ :=
    gridPoint?_cases hp hpos tie k
  · have hle := hbeside.le
    have hlt := hbeside.lt
    have hprev : f.toRat (rank - 1) < f.toRat rank :=
      toRat_strictMono (Nat.sub_lt hpos Nat.one_pos)
    rw [gap] at hk
    rw [toRat_succ] at hlt ha
    refine hb (rounds_of_lt (fun _ => ?_) (by linarith))
    -- If the point below is too low, the one above is not too high.
    by_contra hlow
    exact ha (rounds_of_lt (fun _ => by linarith) (by linarith))
  · rw [hnone] at h
    cases h
  · rw [hnone] at h
    cases h

/-- A point is not far below the value, or the next point would have done. -/
theorem gridPoint?_low (hp : 2 ≤ f.precision) {rank : Nat} (hpos : 0 < rank)
    {tie : Tie} {k : Int} {d : Nat}
    (h : f.gridPoint? tie (f.interval rank) k = some d) :
    2 * f.toRat rank ≤ 2 * (Decimal.mk d k).toRat + 10 ^ k ∨
      f.toRat rank + f.toRat (rank + 1) ≤
        2 * (Decimal.mk d k).toRat + 2 * 10 ^ k := by
  have hprev : f.toRat (rank - 1) < f.toRat rank :=
    toRat_strictMono (Nat.sub_lt hpos Nat.one_pos)
  have hten : (0 : ℚ) < 10 ^ k := zpow_pos (by norm_num) _
  obtain ⟨b, ⟨hle, hlt⟩, ⟨hd, -⟩ | ⟨hd, hb, ha⟩ | ⟨hd, ha, hb⟩⟩ :=
    gridPoint?_cases hp hpos tie k
  · rw [hd] at h
    cases h
  · obtain rfl := Option.some.inj (hd.symm.trans h)
    rw [toRat_succ] at hlt ha
    by_cases habove : f.Rounds rank ((Decimal.mk b k).toRat + 10 ^ k)
    · exact .inl (by linarith [ha habove])
    · refine .inr (not_lt.mp fun hfar => habove ?_)
      exact rounds_of_lt (fun _ => by linarith) (by linarith)
  · obtain rfl := Option.some.inj (hd.symm.trans h)
    exact .inl (by linarith)

/-- Nor is it far above. -/
theorem gridPoint?_high (hp : 2 ≤ f.precision) {rank : Nat} (hpos : 0 < rank)
    {tie : Tie} {k : Int} {d : Nat}
    (h : f.gridPoint? tie (f.interval rank) k = some d) :
    2 * (Decimal.mk d k).toRat ≤ 2 * f.toRat rank + 10 ^ k ∨
      2 * (Decimal.mk d k).toRat ≤
        f.toRat (rank - 1) + f.toRat rank + 2 * 10 ^ k := by
  have hnext : f.toRat rank < f.toRat (rank + 1) := toRat_strictMono (by omega)
  have hten : (0 : ℚ) < 10 ^ k := zpow_pos (by norm_num) _
  obtain ⟨b, ⟨hle, hlt⟩, ⟨hd, -⟩ | ⟨hd, hb, ha⟩ | ⟨hd, ha, hb⟩⟩ :=
    gridPoint?_cases hp hpos tie k
  · rw [hd] at h
    cases h
  · obtain rfl := Option.some.inj (hd.symm.trans h)
    exact .inl (by linarith)
  · obtain rfl := Option.some.inj (hd.symm.trans h)
    rw [toRat_succ] at hlt hb ⊢
    by_cases hbelow : f.Rounds rank (Decimal.mk b k).toRat
    · exact .inl (by linarith [hb hbelow])
    · refine .inr (not_lt.mp fun hfar => hbelow ?_)
      exact rounds_of_lt (fun _ => by linarith) (by linarith)

/-! ## The shortest decimal -/

theorem shortestFrom_spec {tie : Tie} {i : Interval} {k : Int} {count : Nat}
    (hlast : f.gridPoint? tie i (k - count) ≠ none) :
    ∃ d e, f.shortestFrom tie i k count = ⟨d, e⟩ ∧
      f.gridPoint? tie i e = some d ∧ k - count ≤ e ∧ e ≤ k ∧
      (e < k → f.gridPoint? tie i (e + 1) = none) := by
  induction count generalizing k with
  | zero =>
      rw [Int.natCast_zero, Int.sub_zero] at hlast
      obtain ⟨d, hd⟩ := Option.ne_none_iff_exists'.mp hlast
      refine ⟨d, k, ?_, hd, by omega, by omega, fun h => by omega⟩
      rw [shortestFrom, hd]
      rfl
  | succ count ih =>
      rw [shortestFrom]
      cases hk : f.gridPoint? tie i k with
      | some d => exact ⟨d, k, rfl, hk, by omega, by omega, fun h => by omega⟩
      | none =>
          have hcount : k - (count + 1 : Nat) = k - 1 - count := by omega
          rw [hcount] at hlast
          obtain ⟨d, e, hde, hpoint, hlow, hhigh, hnext⟩ := ih hlast
          refine ⟨d, e, hde, hpoint, by omega, by omega, fun h => ?_⟩
          rcases Int.lt_or_eq_of_le hhigh with hlt | rfl
          · exact hnext hlt
          · rw [Int.sub_add_cancel]
            exact hk

theorem gap_eq (f : BinaryFormat) (rank : Nat) :
    f.gap rank = f.spacing (f.shift rank) := by
  rw [gap, toRat, toRat, f.steps_succ, f.steps_eq, spacing]
  push_cast
  ring

theorem toRat_eq_gap (f : BinaryFormat) (rank : Nat) :
    f.toRat rank = f.significand rank * f.gap rank := by
  rw [f.gap_eq, toRat, f.steps_eq, spacing]
  push_cast
  ring

/-- The finest grid that is tried is fine enough. -/
theorem places_fine (f : BinaryFormat) (rank : Nat) :
    2 * 10 ^ (-((f.lowest + 1 - f.shift rank : Nat) : Int)) ≤ f.gap rank := by
  rw [f.gap_eq, spacing, zpow_neg, zpow_natCast, ← div_eq_mul_inv,
    div_le_div_iff₀ (by positivity) (by positivity)]
  generalize hplaces : f.lowest + 1 - f.shift rank = places
  have hle : f.lowest + 1 ≤ f.shift rank + places := by omega
  calc (2 : ℚ) * 2 ^ f.lowest = 2 ^ (f.lowest + 1) := by ring
    _ ≤ 2 ^ (f.shift rank + places) := pow_le_pow_right₀ (by norm_num) hle
    _ = 2 ^ f.shift rank * 2 ^ places := pow_add ..
    _ ≤ 2 ^ f.shift rank * 10 ^ places :=
      mul_le_mul_of_nonneg_left
        (pow_le_pow_left₀ (by norm_num) (by norm_num) _) (by positivity)

/-- What is known of the decimal of a rank: it is a point of its grid, and the
grid is the coarsest one that has a point, or one with a single digit. -/
structure Shortest (f : BinaryFormat) (tie : Tie) (rank : Nat) (d : Decimal) :
    Prop where
  point : f.gridPoint? tie (f.interval rank) d.exponent = some d.digits
  places_le : -(f.lowest + 1 : Int) ≤ d.exponent
  coarsest : f.gridPoint? tie (f.interval rank) (d.exponent + 1) = none ∨
    f.toRat rank < 10 ^ d.exponent

theorem shortest_spec (hp : 2 ≤ f.precision) {rank : Nat} (hpos : 0 < rank)
    (tie : Tie) : f.Shortest tie rank (f.shortest tie rank) := by
  generalize hd : f.shortest tie rank = decimal
  rw [shortest] at hd
  generalize hwhole :
    (Nat.toDigits 10 (f.steps rank >>> f.lowest)).length = whole at hd
  have hlast : f.gridPoint? tie (f.interval rank) (whole -
      (whole + (f.lowest + 1 - f.shift rank) : Nat)) ≠ none := by
    refine gridPoint?_ne_none hp hpos tie (le_trans (le_of_eq ?_)
      (f.places_fine rank))
    congr 2
    omega
  obtain ⟨d, e, hde, hpoint, hlow, hhigh, hnext⟩ := shortestFrom_spec hlast
  obtain rfl : decimal = ⟨d, e⟩ := hd.symm.trans hde
  have hplaces : -(f.lowest + 1 : Int) ≤ e := by omega
  refine ⟨hpoint, hplaces, ?_⟩
  rcases Int.lt_or_eq_of_le hhigh with hlt | rfl
  · exact .inl (hnext hlt)
  · refine .inr ?_
    have hlen : 0 < whole := hwhole ▸ Nat.length_toDigits_pos
    have hdigits := (Nat.length_toDigits_le_iff (by decide) hlen).mp hwhole.le
    rw [Nat.shiftRight_eq_div_pow, Nat.div_lt_iff_lt_mul (Nat.two_pow_pos _)]
      at hdigits
    rw [toRat, zpow_natCast, div_lt_iff₀ (by positivity)]
    exact_mod_cast hdigits

namespace Shortest

variable {tie : Tie} {rank : Nat} {d : Decimal}

theorem rounds (h : f.Shortest tie rank d) (hp : 2 ≤ f.precision)
    (hpos : 0 < rank) : f.Rounds rank d.toRat :=
  rounds_of_gridPoint? hp hpos h.point

theorem digits_pos (h : f.Shortest tie rank d) (hpos : 0 < rank) :
    0 < d.digits :=
  gridPoint?_pos (f.low_pos hpos) h.point

theorem ten_pow_le (h : f.Shortest tie rank d) (hpos : 0 < rank) :
    (10 : ℚ) ^ d.exponent ≤ d.toRat := by
  have hdigits : (1 : ℚ) ≤ d.digits := by exact_mod_cast h.digits_pos hpos
  exact le_mul_of_one_le_left (zpow_pos (by norm_num) _).le hdigits

/-- A decimal of a coarse grid has fewer digits than the interval has
spacings. -/
theorem digits_lt_of_gap_lt (h : f.Shortest tie rank d) (hp : 2 ≤ f.precision)
    (hpos : 0 < rank) {c : Nat}
    (hgap : f.gap rank < 2 * (c * 10 ^ d.exponent)) :
    d.digits < c * (2 * f.significand rank + 1) := by
  have hhigh := (h.rounds hp hpos).high
  have hten : (0 : ℚ) < 10 ^ d.exponent := zpow_pos (by norm_num) _
  rw [f.toRat_next, f.toRat_eq_gap, Decimal.toRat] at hhigh
  have hbound : (2 * f.significand rank + 1) * f.gap rank <
      (2 * f.significand rank + 1) * (2 * (c * 10 ^ d.exponent)) :=
    mul_lt_mul_of_pos_left hgap (by positivity)
  have hlt : (d.digits : ℚ) < c * (2 * f.significand rank + 1) := by
    refine lt_of_mul_lt_mul_right ?_ hten.le
    linarith
  exact_mod_cast hlt

theorem digits_lt (h : f.Shortest tie rank d) (hp : 2 ≤ f.precision)
    (hpos : 0 < rank) : d.digits < 10 * (2 * f.significand rank + 1) := by
  rcases h.coarsest with hnone | hone
  · refine h.digits_lt_of_gap_lt hp hpos ?_
    by_contra hfine
    refine gridPoint?_ne_none hp hpos tie ?_ hnone
    rw [zpow_add_one₀ (by norm_num)]
    push_cast at hfine
    linarith
  · have hpoint := h.point
    have hle : d.digits ≤ 1 := by
      obtain ⟨b, hbeside, hcases⟩ := gridPoint?_cases hp hpos tie d.exponent
      have hb : b < 1 := by
        have hlt := lt_of_le_of_lt hbeside.le hone
        rw [Decimal.toRat] at hlt
        have hten : (0 : ℚ) < 10 ^ d.exponent := zpow_pos (by norm_num) _
        have hone : (b : ℚ) < 1 := by
          refine lt_of_mul_lt_mul_right ?_ hten.le
          linarith
        exact_mod_cast hone
      rcases hcases with ⟨hd, -⟩ | ⟨hd, -⟩ | ⟨hd, -⟩
      · rw [hd] at hpoint
        cases hpoint
      · have := Option.some.inj (hd.symm.trans hpoint)
        omega
      · have := Option.some.inj (hd.symm.trans hpoint)
        omega
    omega

end Shortest

end BinaryFormat

end Flowgraph
