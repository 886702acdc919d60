import Flowgraph.Number.Layout
import Flowgraph.Proofs.Magnitude
import Flowgraph.Proofs.Numerals

/-!
# Numbers and their numerals

Every number that has a JSON form is written as a numeral, and the numeral is
well formed: digits stand where digits have to be, and no zero stands in front
of others. For a floating-point number the one thing to see is that its
shortest decimal does not begin with a zero. Zero lies below the interval of
every positive rank, so it is never the point that is chosen; it could only be
left over from the finest grid, and then it stands right before the point.
-/

namespace Flowgraph

/-! ## Layouts

A finite number is laid out as a numeral; an infinite one has none. -/

namespace Layout

/-- What a whole number has behind its point. -/
def wholeFraction (layout : Layout) : Option (List Char) :=
  if layout.wholePoint then some ['0'] else none

/-- The numeral that digits are spelled as. -/
def spelled (layout : Layout) (negative : Bool) (digits : List Char)
    (point : Int) : Numeral :=
  if point ≤ 0 then
    ⟨negative, ['0'], some (List.replicate (-point).toNat '0' ++ digits), none⟩
  else if digits.length ≤ point.toNat then
    ⟨negative, digits ++ List.replicate (point.toNat - digits.length) '0',
      layout.wholeFraction, none⟩
  else ⟨negative, digits.take point.toNat, some (digits.drop point.toNat), none⟩

/-- The numeral that digits are spelled as with an exponent. -/
def spelledExponent (negative : Bool) (digits : List Char) (point : Int) :
    Numeral :=
  let fraction := match digits.drop 1 with
    | [] => none
    | rest => some rest
  ⟨negative, digits.take 1, fraction, some (point - 1)⟩

/-- The numeral of a decimal. -/
def decimal (layout : Layout) (negative : Bool) (d : Decimal) : Numeral :=
  let digits := Nat.toDigits 10 d.digits
  let point := d.exponent + digits.length
  if layout.positional point then layout.spelled negative digits point
  else spelledExponent negative digits point

/-- The numeral of a finite number. -/
def numeral {f : BinaryFormat} (layout : Layout) (x : Binary f) : Numeral :=
  if x.rank = 0 then ⟨x.negative, ['0'], layout.wholeFraction, none⟩
  else layout.decimal x.negative (f.shortest layout.tie x.rank)

theorem fractionText_wholeFraction (layout : Layout) :
    Numeral.fractionText layout.wholeFraction = layout.wholeEnd := by
  rw [wholeFraction, wholeEnd]
  split <;> rfl

theorem unsignedText_spelled (layout : Layout) (negative : Bool)
    (digits : List Char) (point : Int) :
    (layout.spelled negative digits point).unsignedText =
      layout.spell digits point := by
  simp only [spelled, spell]
  split
  · simp [Numeral.unsignedText, Numeral.fractionText, Numeral.exponentText]
  · split
    · simp [Numeral.unsignedText, Numeral.exponentText,
        fractionText_wholeFraction]
    · simp [Numeral.unsignedText, Numeral.fractionText, Numeral.exponentText]

theorem unsignedText_spelledExponent (negative : Bool) (digits : List Char)
    (point : Int) :
    (spelledExponent negative digits point).unsignedText =
      spellExponent digits point := by
  simp only [spelledExponent, spellExponent, Numeral.unsignedText,
    Numeral.exponentText]
  cases digits.drop 1 <;> simp [Numeral.fractionText]

theorem negative_spelled (layout : Layout) (negative : Bool)
    (digits : List Char) (point : Int) :
    (layout.spelled negative digits point).negative = negative := by
  rw [spelled]
  split
  · rfl
  · split <;> rfl

theorem text_decimal (layout : Layout) (negative : Bool) (d : Decimal) :
    (layout.decimal negative d).text =
      (if negative then ['-'] else []) ++
        (let digits := Nat.toDigits 10 d.digits
        let point := d.exponent + digits.length
        if layout.positional point then layout.spell digits point
        else spellExponent digits point) := by
  simp only [decimal, Numeral.text]
  split
  · rw [unsignedText_spelled, negative_spelled]
  · rw [unsignedText_spelledExponent]
    rfl

theorem text_numeral {f : BinaryFormat} (layout : Layout) {x : Binary f}
    (h : x.isFinite) : (layout.numeral x).text = layout.write x := by
  obtain ⟨negative, rank⟩ := x
  have hfinite : ¬ f.infinite ≤ rank.val := by
    simpa [Binary.isFinite] using h
  by_cases hzero : rank = 0
  · subst hzero
    simp [numeral, write, magnitude, Numeral.text, Numeral.unsignedText,
      fractionText_wholeFraction, Numeral.exponentText]
  · have hrank : ¬ rank.val = 0 := fun h => hzero (Fin.ext h)
    rw [numeral, if_neg hzero, text_decimal, write, magnitude, if_neg hrank,
      if_neg hfinite]

end Layout

/-! ## Written numerals are well formed -/

namespace BinaryFormat

variable (f : BinaryFormat)

theorem significand_pos {rank : Nat} (h : 0 < rank) :
    0 < f.significand rank := by
  rw [significand]
  split
  · exact h
  · exact Nat.add_pos_right _ f.span_pos

/-- Zero is below the interval of every other rank. -/
theorem low_pos {rank : Nat} (h : 0 < rank) : 0 < (f.interval rank).low := by
  have hm := f.significand_pos h
  have hhalf : 0 < 2 <<< f.shift rank := by
    rw [Nat.shiftLeft_eq]
    exact Nat.mul_pos Nat.two_pos (Nat.two_pow_pos _)
  have hvalue : 2 * (2 <<< f.shift rank) ≤
      2 * f.significand rank * (2 <<< f.shift rank) :=
    Nat.mul_le_mul_right _ (by omega)
  simp only [interval]
  split <;> omega

variable {f}

theorem Interval.holds_zero {i : Interval} (h : 0 < i.low) {scale : Nat}
    (hscale : 0 < scale) (unit : Nat) : i.holds scale unit 0 = false := by
  have hlow : 0 < i.low * scale := Nat.mul_pos h hscale
  rw [holds]
  split
  · simp
    omega
  · simp

/-- The point that is chosen lies in the interval. -/
theorem holds_of_gridPoint? {tie : Tie} {i : Interval} {k : Int} {d : Nat}
    (h : f.gridPoint? tie i k = some d) :
    i.holds (Nat.pow 10 (-k).toNat) (Nat.pow 10 k.toNat <<< (f.lowest + 2)) d =
      true := by
  simp only [gridPoint?] at h
  split at h
  · cases h
  · next hbelow _ =>
      obtain rfl := Option.some.inj h
      exact hbelow
  · next _ habove =>
      obtain rfl := Option.some.inj h
      exact habove
  · next hbelow habove =>
      repeat' split at h
      all_goals
        obtain rfl := Option.some.inj h
        assumption

theorem gridPoint?_pos {tie : Tie} {i : Interval} {k : Int} {d : Nat}
    (hlow : 0 < i.low) (h : f.gridPoint? tie i k = some d) : 0 < d := by
  have hscale : 0 < Nat.pow 10 (-k).toNat := Nat.pow_pos (by decide)
  have hholds := holds_of_gridPoint? h
  refine Nat.pos_of_ne_zero ?_
  rintro rfl
  rw [Interval.holds_zero hlow hscale] at hholds
  cases hholds

theorem shortestFrom_digits (tie : Tie) {i : Interval} (hlow : 0 < i.low)
    (k : Int) (count : Nat) :
    0 < (f.shortestFrom tie i k count).digits ∨
      (f.shortestFrom tie i k count).exponent = k - count := by
  induction count generalizing k with
  | zero => exact .inr (Int.sub_zero k).symm
  | succ count ih =>
      rw [shortestFrom]
      cases h : f.gridPoint? tie i k with
      | some d => exact .inl (gridPoint?_pos hlow h)
      | none =>
          have hk : k - (count + 1 : Nat) = k - 1 - count := by omega
          rw [hk]
          exact ih (k - 1)

theorem shortest_digits (tie : Tie) {rank : Nat} (h : 0 < rank) :
    0 < (f.shortest tie rank).digits ∨ (f.shortest tie rank).exponent ≤ 0 := by
  refine (shortestFrom_digits tie (f.low_pos h) _ _).imp_right fun hk => ?_
  rw [shortest, hk]
  omega

end BinaryFormat

namespace Layout

theorem isRun_wholeFraction (layout : Layout) :
    ∀ digits ∈ layout.wholeFraction, Numeral.IsRun digits := by
  rw [wholeFraction]
  split
  · rintro _ ⟨⟩
    exact ⟨List.cons_ne_nil _ _, List.forall_mem_singleton.mpr rfl⟩
  · nofun

theorem isRun_append_zeros {digits : List Char} (h : Numeral.IsRun digits)
    (n : Nat) : Numeral.IsRun (digits ++ List.replicate n '0') := by
  refine ⟨List.append_ne_nil_of_left_ne_nil h.1 _, fun c hc => ?_⟩
  rcases List.mem_append.mp hc with hc | hc
  · exact h.2 c hc
  · rw [List.eq_of_mem_replicate hc]
    rfl

theorem isRun_zeros_append {digits : List Char} (h : Numeral.IsRun digits)
    (n : Nat) : Numeral.IsRun (List.replicate n '0' ++ digits) := by
  refine ⟨List.append_ne_nil_of_right_ne_nil _ h.1, fun c hc => ?_⟩
  rcases List.mem_append.mp hc with hc | hc
  · rw [List.eq_of_mem_replicate hc]
    rfl
  · exact h.2 c hc

theorem isRun_take {digits : List Char} (h : Numeral.IsRun digits) {n : Nat}
    (hn : 0 < n) : Numeral.IsRun (digits.take n) := by
  refine ⟨fun hnil => ?_, fun c hc => h.2 c (List.mem_of_mem_take hc)⟩
  rcases List.take_eq_nil_iff.mp hnil with rfl | hdigits
  · cases hn
  · exact h.1 hdigits

theorem isRun_drop {digits : List Char} (h : Numeral.IsRun digits) {n : Nat}
    (hn : n < digits.length) : Numeral.IsRun (digits.drop n) := by
  refine ⟨fun hnil => ?_, fun c hc => h.2 c (List.mem_of_mem_drop hc)⟩
  have hle := List.drop_eq_nil_iff.mp hnil
  omega

theorem wellFormed_spelled (layout : Layout) (negative : Bool) {d : Decimal}
    (h : 0 < d.digits ∨ d.exponent ≤ 0) :
    (layout.spelled negative (Nat.toDigits 10 d.digits)
      (d.exponent + (Nat.toDigits 10 d.digits).length)).WellFormed := by
  have hrun := Numeral.isRun_toDigits d.digits
  have hzero (hd : (Nat.toDigits 10 d.digits).head? = some '0') :
      Nat.toDigits 10 d.digits = ['0'] ∧ d.exponent ≤ 0 :=
    ⟨Numeral.toDigits_eq_zero hd,
      h.resolve_left (by rw [Numeral.eq_zero_of_head? hd]; decide)⟩
  generalize Nat.toDigits 10 d.digits = digits at hrun hzero ⊢
  rw [spelled]
  split
  · refine ⟨⟨by simp, by simp⟩, fun _ => rfl, ?_⟩
    rintro _ ⟨⟩
    exact isRun_zeros_append hrun _
  · split
    · next hlen =>
        refine ⟨isRun_append_zeros hrun _, fun hd => ?_,
          isRun_wholeFraction layout⟩
        -- A zero in front is the only digit, and no more are added to it.
        rw [List.head?_append_of_ne_nil _ hrun.1] at hd
        obtain ⟨rfl, hexp⟩ := hzero hd
        rw [List.length_singleton, Nat.sub_eq_zero_of_le (by omega)]
        rfl
    · next hpoint hlen =>
        refine ⟨isRun_take hrun (by omega), fun hd => ?_, ?_⟩
        · rw [List.head?_take, if_neg (by omega)] at hd
          obtain ⟨rfl, -⟩ := hzero hd
          rw [List.length_singleton] at hpoint hlen
          omega
        · rintro _ ⟨⟩
          exact isRun_drop hrun (by omega)

theorem wellFormed_spelledExponent (negative : Bool) (n : Nat) (point : Int) :
    (spelledExponent negative (Nat.toDigits 10 n) point).WellFormed := by
  have hrun := Numeral.isRun_toDigits n
  obtain ⟨c, tail, hdigits⟩ := List.exists_cons_of_ne_nil hrun.1
  rw [hdigits] at hrun ⊢
  refine ⟨isRun_take hrun Nat.one_pos, fun hd => ?_, ?_⟩
  · obtain rfl : c = '0' := Option.some.inj hd
    rfl
  · cases tail with
    | nil => nofun
    | cons d tail =>
        rintro _ ⟨⟩
        exact isRun_drop (n := 1) hrun (by simp)

theorem wellFormed_numeral {f : BinaryFormat} (layout : Layout) (x : Binary f) :
    (layout.numeral x).WellFormed := by
  rw [numeral]
  split
  · exact ⟨⟨by simp, by simp⟩, fun _ => rfl, isRun_wholeFraction layout⟩
  · next hzero =>
      have hrank : 0 < x.rank.val :=
        Nat.pos_of_ne_zero fun h => hzero (Fin.ext h)
      rw [decimal]
      split
      · exact wellFormed_spelled layout _ (f.shortest_digits _ hrank)
      · exact wellFormed_spelledExponent _ _ _

end Layout

namespace Number

/-- The numeral that a number is written as. -/
def numeral? : Number → Option Numeral
  | integer n => some (.ofInt n)
  | double x => if x.isFinite then some (Layout.double.numeral x) else none
  | single x => if x.isFinite then some (Layout.single.numeral x) else none

theorem write_eq (n : Number) : n.write =
    match n.numeral? with
    | some m => m.text
    | none => "null".toList := by
  cases n with
  | integer n => exact (Numeral.text_ofInt n).symm
  | double x =>
      rw [write, numeral?]
      split
      · next h => exact (Layout.text_numeral _ h).symm
      · rfl
  | single x =>
      rw [write, numeral?]
      split
      · next h => exact (Layout.text_numeral _ h).symm
      · rfl

theorem wellFormed_numeral? {n : Number} {m : Numeral}
    (h : n.numeral? = some m) : m.WellFormed := by
  cases n with
  | integer n =>
      obtain rfl := Option.some.inj h
      exact Numeral.wellFormed_ofInt n
  | double x =>
      obtain ⟨-, h⟩ := Option.ite_none_right_eq_some.mp h
      obtain rfl := Option.some.inj h
      exact Layout.wellFormed_numeral _ x
  | single x =>
      obtain ⟨-, h⟩ := Option.ite_none_right_eq_some.mp h
      obtain rfl := Option.some.inj h
      exact Layout.wellFormed_numeral _ x

end Number

end Flowgraph
