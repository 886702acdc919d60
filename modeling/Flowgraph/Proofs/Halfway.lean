import Flowgraph.Proofs.Scaling

/-!
# Decimals near halfway points

A decimal `d * 10 ^ k` can lie close to a binary number `m * 2 ^ q` without
being equal to it. How close is a question about the fraction `d / m`, which
then is close to `2 ^ q / 10 ^ k`. Two neighbouring fractions on both sides of
that number settle it, if every fraction between them has a greater denominator
than all the `m` in question: `d / m` does not lie between them, and they
themselves are at some distance. For each `k` and `q` that concern 32-bit
numbers such a pair is computed and checked.
-/

namespace Flowgraph

/-- Two fractions, the lower one first. -/
structure Bracket where
  p₁ : Nat
  q₁ : Nat
  p₂ : Nat
  q₂ : Nat

namespace Bracket

/-- Narrows a bracket around a number while denominators stay below a bound.
`left` and `right` say how far the number is from the two sides, and each side
is moved as far as it can go at once. -/
def narrow (bound : Nat) : Nat → Nat → Nat → Bracket → Bracket
  | 0, _, _, s => s
  | fuel + 1, left, right, s =>
    if bound ≤ s.q₁ + s.q₂ then s
    else
      let t := min ((left - 1) / right) ((bound - 1 - s.q₁) / s.q₂)
      let p₁ := s.p₁ + t * s.p₂
      let q₁ := s.q₁ + t * s.q₂
      let left := left - t * right
      let u := min ((right - 1) / left) ((bound - 1 - s.q₂) / q₁)
      narrow bound fuel left (right - u * left)
        ⟨p₁, q₁, s.p₂ + u * p₁, s.q₂ + u * q₁⟩

/-- The bracket that is found around `b / a`, a number below one. -/
def around (bound a b : Nat) : Bracket :=
  narrow bound 16 b (a - b) ⟨0, 1, 1, 1⟩

/-- Whether the fractions `d / m` up to `p / q` are told apart from `b / a`, by
more than the part `1 / t`. If `q` is a denominator that is left out, only the
fractions below `p / q` have to be. -/
def clearBelow (t bound a b skip p q : Nat) : Bool :=
  (t + 1) * (a * p) < t * (b * q) ||
    q = skip && bound ≤ 2 * q &&
      bound * ((t + 1) * (a * p)) ≤ bound * (t * (b * q)) + (t + 1) * a

/-- The same for the fractions from `p / q` on. -/
def clearAbove (t bound a b skip p q : Nat) : Bool :=
  t * (b * q) < (t - 1) * (a * p) ||
    q = skip && bound ≤ 2 * q &&
      bound * (t * (b * q)) ≤ bound * ((t - 1) * (a * p)) + (t - 1) * a

/-- Whether a bracket tells all fractions with denominators below a bound apart
from `b / a`. -/
def separates (s : Bracket) (t bound a b skip : Nat) : Bool :=
  s.p₂ * s.q₁ = s.p₁ * s.q₂ + 1 && bound ≤ s.q₁ + s.q₂ &&
    clearBelow t bound a b skip s.p₁ s.q₁ &&
    clearAbove t bound a b skip s.p₂ s.q₂

variable {t bound a b skip p q d m : Nat}

/-- A fraction that is equal to one in lowest terms has the same denominator, if
it cannot have twice that. -/
theorem denominator_eq (hpq : Nat.Coprime q p) (hm : 0 < m) (hbound : m < bound)
    (hq : bound ≤ 2 * q) (heq : d * q = m * p) : m = q := by
  obtain ⟨c, rfl⟩ : q ∣ m :=
    hpq.dvd_of_dvd_mul_right ⟨d, by rw [← heq, Nat.mul_comm]⟩
  have hlt : c < 2 := by
    refine Nat.lt_of_mul_lt_mul_left (a := q) ?_
    omega
  have hpos : 0 < c := Nat.pos_of_mul_pos_left hm
  obtain rfl : c = 1 := by omega
  exact Nat.mul_one q

theorem lt_of_clearBelow (h : clearBelow t bound a b skip p q = true)
    (hpq : Nat.Coprime q p) (hm : 0 < m) (hbound : m < bound) (ha : 0 < a)
    (hskip : m ≠ skip) (hle : d * q ≤ m * p) :
    (t + 1) * (d * a) < t * (m * b) := by
  simp only [clearBelow, Bool.or_eq_true, Bool.and_eq_true,
    decide_eq_true_iff] at h
  obtain hclear | ⟨⟨rfl, hq⟩, hclear⟩ := h
  · refine Nat.lt_of_mul_lt_mul_right (a := q) ?_
    calc (t + 1) * (d * a) * q = (t + 1) * a * (d * q) := by ring
      _ ≤ (t + 1) * a * (m * p) := Nat.mul_le_mul_left _ hle
      _ = m * ((t + 1) * (a * p)) := by ring
      _ < m * (t * (b * q)) := Nat.mul_lt_mul_of_pos_left hclear hm
      _ = t * (m * b) * q := by ring
  · have hlt : d * q + 1 ≤ m * p := by
      refine Nat.lt_of_le_of_ne hle fun heq => hskip ?_
      exact denominator_eq hpq hm hbound hq heq
    have hcancel : (t + 1) * (d * a) * (q * bound) + (t + 1) * a * bound <
        t * (m * b) * (q * bound) + (t + 1) * a * bound := by
      calc (t + 1) * (d * a) * (q * bound) + (t + 1) * a * bound
          = (t + 1) * a * bound * (d * q + 1) := by ring
        _ ≤ (t + 1) * a * bound * (m * p) := Nat.mul_le_mul_left _ hlt
        _ = m * (bound * ((t + 1) * (a * p))) := by ring
        _ ≤ m * (bound * (t * (b * q)) + (t + 1) * a) :=
          Nat.mul_le_mul_left _ hclear
        _ = t * (m * b) * (q * bound) + (t + 1) * a * m := by ring
        _ < t * (m * b) * (q * bound) + (t + 1) * a * bound := by
          refine Nat.add_lt_add_left (Nat.mul_lt_mul_of_pos_left hbound ?_) _
          exact Nat.mul_pos (Nat.succ_pos t) ha
    exact Nat.lt_of_mul_lt_mul_right (Nat.lt_of_add_lt_add_right hcancel)

theorem lt_of_clearAbove (h : clearAbove t bound a b skip p q = true)
    (hpq : Nat.Coprime q p) (hm : 0 < m) (hbound : m < bound) (ha : 0 < a)
    (ht : 1 < t) (hskip : m ≠ skip) (hle : m * p ≤ d * q) :
    t * (m * b) < (t - 1) * (d * a) := by
  simp only [clearAbove, Bool.or_eq_true, Bool.and_eq_true,
    decide_eq_true_iff] at h
  obtain hclear | ⟨⟨rfl, hq⟩, hclear⟩ := h
  · refine Nat.lt_of_mul_lt_mul_right (a := q) ?_
    calc t * (m * b) * q = m * (t * (b * q)) := by ring
      _ < m * ((t - 1) * (a * p)) := Nat.mul_lt_mul_of_pos_left hclear hm
      _ = (t - 1) * a * (m * p) := by ring
      _ ≤ (t - 1) * a * (d * q) := Nat.mul_le_mul_left _ hle
      _ = (t - 1) * (d * a) * q := by ring
  · have hlt : m * p + 1 ≤ d * q := by
      refine Nat.lt_of_le_of_ne hle fun heq => hskip ?_
      exact denominator_eq hpq hm hbound hq heq.symm
    refine Nat.lt_of_mul_lt_mul_right (a := q * bound) ?_
    calc t * (m * b) * (q * bound) = m * (bound * (t * (b * q))) := by ring
      _ ≤ m * (bound * ((t - 1) * (a * p)) + (t - 1) * a) :=
        Nat.mul_le_mul_left _ hclear
      _ = (t - 1) * a * bound * (m * p) + (t - 1) * a * m := by ring
      _ < (t - 1) * a * bound * (m * p) + (t - 1) * a * bound := by
        refine Nat.add_lt_add_left (Nat.mul_lt_mul_of_pos_left hbound ?_) _
        exact Nat.mul_pos (by omega) ha
      _ = (t - 1) * a * bound * (m * p + 1) := by ring
      _ ≤ (t - 1) * a * bound * (d * q) := Nat.mul_le_mul_left _ hlt
      _ = (t - 1) * (d * a) * (q * bound) := by ring

/-- A fraction between two neighbours has at least the sum of their
denominators. -/
theorem le_or_le (s : Bracket) (hnext : s.p₂ * s.q₁ = s.p₁ * s.q₂ + 1)
    (hsum : bound ≤ s.q₁ + s.q₂) (hbound : m < bound) :
    d * s.q₁ ≤ m * s.p₁ ∨ m * s.p₂ ≤ d * s.q₂ := by
  by_contra hbetween
  rw [not_or, Nat.not_le, Nat.not_le] at hbetween
  obtain ⟨hlow, hhigh⟩ := hbetween
  obtain ⟨x, hx⟩ := Nat.exists_eq_add_of_lt hlow
  obtain ⟨y, hy⟩ := Nat.exists_eq_add_of_lt hhigh
  have hm : m + s.q₁ * (d * s.q₂) + s.q₂ * (m * s.p₁) =
      s.q₂ * (x + 1) + s.q₁ * (y + 1) + s.q₁ * (d * s.q₂) +
        s.q₂ * (m * s.p₁) := by
    calc m + s.q₁ * (d * s.q₂) + s.q₂ * (m * s.p₁)
        = m * (s.p₁ * s.q₂ + 1) + s.q₂ * (d * s.q₁) := by ring
      _ = s.q₁ * (m * s.p₂) + s.q₂ * (d * s.q₁) := by
        rw [← hnext]
        ring
      _ = _ := by
        rw [hx, hy]
        ring
  have hx' : s.q₂ ≤ s.q₂ * (x + 1) := Nat.le_mul_of_pos_right _ (Nat.succ_pos x)
  have hy' : s.q₁ ≤ s.q₁ * (y + 1) := Nat.le_mul_of_pos_right _ (Nat.succ_pos y)
  omega

theorem separates_spec {s : Bracket} (h : s.separates t bound a b skip = true)
    (hm : 0 < m) (hbound : m < bound) (ha : 0 < a) (ht : 1 < t)
    (hskip : m ≠ skip) (d : Nat) :
    (t + 1) * (d * a) < t * (m * b) ∨ t * (m * b) < (t - 1) * (d * a) := by
  simp only [separates, Bool.and_eq_true, decide_eq_true_iff] at h
  obtain ⟨⟨⟨hnext, hsum⟩, hbelow⟩, habove⟩ := h
  have hone {c : Nat} (h₁ : c ∣ s.p₂ * s.q₁) (h₂ : c ∣ s.p₁ * s.q₂) : c ∣ 1 :=
    (Nat.dvd_add_right h₂).mp (hnext ▸ h₁)
  have hlow : Nat.Coprime s.q₁ s.p₁ := Nat.dvd_one.mp
    (hone ((Nat.gcd_dvd_left ..).mul_left _)
      ((Nat.gcd_dvd_right ..).mul_right _))
  have hhigh : Nat.Coprime s.q₂ s.p₂ := Nat.dvd_one.mp
    (hone ((Nat.gcd_dvd_right ..).mul_right _)
      ((Nat.gcd_dvd_left ..).mul_left _))
  rcases s.le_or_le hnext hsum hbound (d := d) with hle | hle
  · exact .inl (lt_of_clearBelow hbelow hlow hm hbound ha hskip hle)
  · exact .inr (lt_of_clearAbove habove hhigh hm hbound ha ht hskip hle)

end Bracket

namespace Halfway

/-- `10 ^ k / 2 ^ q` as a fraction of natural numbers: its numerator. -/
def upper (k q : Int) : Nat := Nat.pow 5 k.toNat * Nat.pow 2 (k - q).toNat

/-- Its denominator. -/
def lower (k q : Int) : Nat := Nat.pow 5 (-k).toNat * Nat.pow 2 (q - k).toNat

/-- How exactly a decimal is read: its value is rounded once if the power of ten
is a double, and twice otherwise. -/
def tolerance (k : Int) : Nat :=
  if k.natAbs ≤ 22 then 9007199254740992 else 4503599627370495

/-- The denominators that are left out: the halfway points that decimals with
eight digits come too close to. -/
def skipped (k q : Int) : Nat :=
  if k = -32 ∧ (q = -108 ∨ q = -107) then 22841339
  else if k = -15 ∧ q = -50 then 28874659
  else 0

/-- The exponent of the greatest power of two that `10 ^ k` is not below. -/
def log2Ten (k : Int) : Int :=
  if 0 ≤ k then k + (Nat.pow 5 k.toNat).log2
  else k - ((Nat.pow 5 (-k).toNat).log2 + 1)

theorem ten_pow_bits (n : Nat) :
    (2 : ℚ) ^ (n + (Nat.pow 5 n).log2) ≤ 10 ^ n ∧
      (10 : ℚ) ^ n ≤ 2 ^ (n + (Nat.pow 5 n).log2 + 1) := by
  have hne : 5 ^ n ≠ 0 := (Nat.pow_pos (by decide)).ne'
  have hlow : (2 : ℚ) ^ (5 ^ n).log2 ≤ 5 ^ n := by
    exact_mod_cast Nat.log2_self_le hne
  have hhigh : (5 : ℚ) ^ n ≤ 2 ^ ((5 ^ n).log2 + 1) := by
    exact_mod_cast Nat.lt_log2_self.le
  have hten : (10 : ℚ) ^ n = 2 ^ n * 5 ^ n := by
    rw [← mul_pow]
    norm_num
  rw [Nat.pow_eq, add_assoc, pow_add, pow_add, hten]
  exact ⟨mul_le_mul_of_nonneg_left hlow (by positivity),
    mul_le_mul_of_nonneg_left hhigh (by positivity)⟩

theorem log2Ten_spec (k : Int) :
    (2 : ℚ) ^ log2Ten k ≤ 10 ^ k ∧ (10 : ℚ) ^ k ≤ 2 ^ (log2Ten k + 1) := by
  rw [log2Ten]
  split
  · next h =>
      obtain ⟨n, rfl⟩ := Int.eq_ofNat_of_zero_le h
      exact_mod_cast ten_pow_bits n
  · next h =>
      obtain ⟨n, rfl⟩ : ∃ n : Nat, k = -n := ⟨(-k).toNat, by omega⟩
      obtain ⟨hlow, hhigh⟩ := ten_pow_bits n
      rw [neg_neg, Int.toNat_natCast]
      generalize (Nat.pow 5 n).log2 = bits at *
      have hfirst : (-n - (bits + 1) : Int) =
          -((n + bits + 1 : Nat) : Int) := by
        omega
      have hsecond : (-n - (bits + 1) + 1 : Int) =
          -((n + bits : Nat) : Int) := by
        omega
      rw [hsecond, hfirst, zpow_neg, zpow_neg, zpow_neg, zpow_natCast,
        zpow_natCast, zpow_natCast]
      exact ⟨inv_anti₀ (by positivity) hhigh, inv_anti₀ (by positivity) hlow⟩

/-- Whether the decimals with the exponent `k` are told apart from the multiples
of `2 ^ q` below `2 ^ 25`: by a bracket, or because both are multiples of one
number that is not too small. -/
def apart (k q : Int) : Bool :=
  let a := upper k q
  let b := lower k q
  k.natAbs ≤ 22 && b ≤ 67108864 ||
    (Bracket.around 33554432 a b).separates (tolerance k) 33554432 a b
      (skipped k q)

theorem apart_all : ∀ i : Nat, i < 84 → ∀ j : Nat, j < 25 →
    -150 ≤ log2Ten (i - 45) - j → log2Ten (i - 45) - j ≤ 103 →
      apart (i - 45) (log2Ten (i - 45) - j) = true := by
  decide +kernel

section

variable {k q : Int} {d m : Nat}

theorem apart_of_lt (hk : -45 ≤ k ∧ k ≤ 38) (hq : -150 ≤ q ∧ q ≤ 103)
    (hlow : (2 : ℚ) ^ q < 10 ^ k) (hhigh : (10 : ℚ) ^ k < 2 ^ (q + 25)) :
    apart k q = true := by
  obtain ⟨hle, hge⟩ := log2Ten_spec k
  have htop : q < log2Ten k + 1 :=
    (zpow_lt_zpow_iff_right₀ (by norm_num)).mp (lt_of_lt_of_le hlow hge)
  have hbottom : log2Ten k < q + 25 :=
    (zpow_lt_zpow_iff_right₀ (by norm_num)).mp (lt_of_le_of_lt hle hhigh)
  have h := apart_all (k + 45).toNat (by omega) (log2Ten k - q).toNat (by omega)
  have hi : ((k + 45).toNat : Int) - 45 = k := by omega
  have hj : log2Ten k - ((log2Ten k - q).toNat : Int) = q := by omega
  rw [hi, hj] at h
  exact h hq.1 hq.2

theorem zpow_mul_lower (k q : Int) :
    (10 : ℚ) ^ k * lower k q = 2 ^ q * upper k q := by
  have hten : (10 : ℚ) ^ k = 2 ^ k * 5 ^ k := by
    rw [← mul_zpow]
    norm_num
  have hq : (2 : ℚ) ^ q = 2 ^ k / 2 ^ (k - q) := by
    rw [← zpow_sub₀ (by norm_num)]
    congr 1
    omega
  have hneg : -(k - q) = q - k := Int.neg_sub ..
  rw [hten, hq, zpow_eq_div (a := 5) (by norm_num) k,
    zpow_eq_div (a := 2) (by norm_num) (k - q), hneg, lower, upper, Nat.pow_eq,
    Nat.pow_eq, Nat.pow_eq, Nat.pow_eq]
  push_cast
  field_simp

theorem lower_pos (k q : Int) : 0 < lower k q :=
  Nat.mul_pos (Nat.pow_pos (by decide)) (Nat.pow_pos (by decide))

theorem upper_pos (k q : Int) : 0 < upper k q :=
  Nat.mul_pos (Nat.pow_pos (by decide)) (Nat.pow_pos (by decide))

theorem one_lt_tolerance (k : Int) : 1 < tolerance k := by
  rw [tolerance]
  split <;> decide

/-- Different products that are not too great differ by more than the
tolerance. -/
theorem lt_or_lt_or_eq {t x y : Nat} (hy : y + 1 < t) :
    (t + 1) * x < t * y ∨ t * y < (t - 1) * x ∨ x = y := by
  obtain ⟨s, rfl⟩ : ∃ s, t = s + 1 := ⟨t - 1, by omega⟩
  rw [Nat.add_sub_cancel]
  rcases Nat.lt_trichotomy x y with hlt | heq | hgt
  · refine .inl ?_
    obtain ⟨c, rfl⟩ := Nat.exists_eq_add_of_lt hlt
    have hc : 0 ≤ (s + 1) * c := Nat.zero_le _
    calc (s + 1 + 1) * x = (s + 1) * x + x := by ring
      _ < (s + 1) * x + (s + 1) := by omega
      _ ≤ (s + 1) * x + (s + 1) + (s + 1) * c := Nat.le_add_right ..
      _ = (s + 1) * (x + c + 1) := by ring
  · exact .inr (.inr heq)
  · refine .inr (.inl ?_)
    calc (s + 1) * y = s * y + y := by ring
      _ < s * y + s := by omega
      _ = s * (y + 1) := by ring
      _ ≤ s * x := Nat.mul_le_mul_left _ hgt

theorem apart_spec (h : apart k q = true) (hm : 0 < m) (hbound : m < 33554432)
    (hskip : m ≠ skipped k q) (d : Nat) :
    (tolerance k + 1) * (d * upper k q) < tolerance k * (m * lower k q) ∨
      tolerance k * (m * lower k q) < (tolerance k - 1) * (d * upper k q) ∨
      (k.natAbs ≤ 22 ∧ d * upper k q = m * lower k q) := by
  simp only [apart, Bool.or_eq_true, Bool.and_eq_true, decide_eq_true_iff] at h
  rcases h with ⟨hsmall, hb⟩ | hbracket
  · have hy : m * lower k q + 1 < tolerance k := by
      have hle : m * lower k q ≤ 33554431 * 67108864 :=
        Nat.mul_le_mul (by omega) hb
      rw [tolerance, if_pos hsmall]
      omega
    rcases lt_or_lt_or_eq hy (x := d * upper k q) with hlt | hgt | heq
    · exact .inl hlt
    · exact .inr (.inl hgt)
    · exact .inr (.inr ⟨hsmall, heq⟩)
  · rcases Bracket.separates_spec hbracket hm hbound (upper_pos k q)
      (one_lt_tolerance k) hskip d with hlt | hgt
    · exact .inl hlt
    · exact .inr (.inl hgt)

/-- Decimals and halfway points are told apart, or equal. -/
theorem told_apart (hk : -45 ≤ k ∧ k ≤ 38) (hq : -150 ≤ q ∧ q ≤ 103)
    (hlow : (2 : ℚ) ^ q < 10 ^ k) (hhigh : (10 : ℚ) ^ k < 2 ^ (q + 25))
    (hm : 0 < m) (hbound : m < 33554432) (hskip : m ≠ skipped k q) (d : Nat) :
    (tolerance k + 1) * (d * 10 ^ k : ℚ) < tolerance k * (m * 2 ^ q) ∨
      tolerance k * (m * 2 ^ q : ℚ) < (tolerance k - 1) * (d * 10 ^ k) ∨
      (k.natAbs ≤ 22 ∧ (d * 10 ^ k : ℚ) = m * 2 ^ q) := by
  have hlower : (0 : ℚ) < lower k q := by exact_mod_cast lower_pos k q
  -- Both numbers are multiples of one number.
  obtain ⟨c, hc, hx, hy⟩ : ∃ c : ℚ, 0 < c ∧
      (d * 10 ^ k : ℚ) = (d * upper k q : Nat) * c ∧
      (m * 2 ^ q : ℚ) = (m * lower k q : Nat) * c := by
    refine ⟨2 ^ q / lower k q, div_pos (zpow_pos (by norm_num) _) hlower,
      ?_, ?_⟩
    · have hratio := zpow_mul_lower k q
      push_cast
      field_simp
      linear_combination d * hratio
    · push_cast
      field_simp
  have hpred : ((tolerance k - 1 : Nat) : ℚ) = tolerance k - 1 := by
    rw [Nat.cast_sub (one_lt_tolerance k).le, Nat.cast_one]
  rw [hx, hy, ← mul_assoc, ← mul_assoc, ← mul_assoc,
    mul_lt_mul_iff_left₀ hc, mul_lt_mul_iff_left₀ hc, mul_left_inj' hc.ne',
    ← hpred]
  exact_mod_cast apart_spec (apart_of_lt hk hq hlow hhigh) hm hbound hskip d

/-- A number that is read as a decimal is lies on the same side of a halfway
point as the decimal. -/
theorem same_side (hk : -45 ≤ k ∧ k ≤ 38) (hq : -150 ≤ q ∧ q ≤ 103)
    (hlow : (2 : ℚ) ^ q < 10 ^ k) (hhigh : (10 : ℚ) ^ k < 2 ^ (q + 25))
    (hm : 0 < m) (hbound : m < 33554432) (hskip : m ≠ skipped k q) {d : Nat}
    {y : ℚ} (hy : BinaryFormat.Near (tolerance k) y (d * 10 ^ k)) :
    (y < m * 2 ^ q ∧ (d * 10 ^ k : ℚ) < m * 2 ^ q) ∨
      (m * 2 ^ q < y ∧ (m * 2 ^ q : ℚ) < d * 10 ^ k) ∨
      (k.natAbs ≤ 22 ∧ (d * 10 ^ k : ℚ) = m * 2 ^ q) := by
  have ht : (0 : ℚ) < tolerance k := by
    exact_mod_cast (one_lt_tolerance k).trans' Nat.one_pos
  have hle := hy.le_mul ht.le
  have hge := hy.mul_le ht.le
  have hx := hy.nonneg ht.le
  have htold := told_apart hk hq hlow hhigh hm hbound hskip d
  generalize (m * 2 ^ q : ℚ) = b at *
  generalize (d * 10 ^ k : ℚ) = x at *
  rcases htold with hlt | hgt | heq
  · exact .inl ⟨lt_of_mul_lt_mul_left (by linarith) ht.le,
      lt_of_mul_lt_mul_left (by linarith) ht.le⟩
  · exact .inr (.inl ⟨lt_of_mul_lt_mul_left (by linarith) ht.le,
      lt_of_mul_lt_mul_left (by linarith) ht.le⟩)
  · exact .inr (.inr heq)

end

end Halfway

end Flowgraph
