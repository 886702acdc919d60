import Flowgraph.Proofs.Numerals
import Flowgraph.Time.Rfc3339

/-!
# Moments read back

Every moment of the calendar is read back from its text. The parts are read one
after another, each leaving the text behind it. A number of fixed width is read
whatever follows; only a year outside four digits is as long as its digits are,
and there a dash ends it. The digits that a fraction leaves out are zeros.
-/

namespace Flowgraph

namespace Moment

/-! ## Numbers of fixed width -/

theorem isDigit_padded (width n : Nat) : ∀ c ∈ padded width n, c.isDigit := by
  intro c hc
  rcases List.mem_append.mp hc with hc | hc
  · rw [List.eq_of_mem_replicate hc]
    rfl
  · exact Nat.isDigit_of_mem_toDigits (by decide) (by decide) hc

theorem ofDigitChars_padded (width n : Nat) :
    Nat.ofDigitChars 10 (padded width n) 0 = n := by
  rw [padded, Nat.ofDigitChars_append, Nat.ofDigitChars_replicate_zero,
    Nat.mul_zero, Nat.ofDigitChars_ten_toDigits]

theorem length_padded {width n : Nat} (hwidth : 0 < width)
    (h : n < Nat.pow 10 width) : (padded width n).length = width := by
  have hle : (Nat.toDigits 10 n).length ≤ width :=
    (Nat.length_toDigits_le_iff (by decide) hwidth).mpr h
  rw [padded, List.length_append, List.length_replicate]
  omega

theorem padded_ne_nil (width n : Nat) : padded width n ≠ [] :=
  List.append_ne_nil_of_right_ne_nil _ Nat.toDigits_ne_nil

theorem not_isBlank_of_isDigit {c : Char} (h : c.isDigit) :
    Text.isBlank c = false := by
  have hrange : 48 ≤ c.toNat ∧ c.toNat ≤ 57 := by
    simpa [Char.isDigit, Char.le_def, UInt32.le_iff_toNat_le] using h
  simp only [Text.isBlank, Text.blankRanges, List.any_cons, List.any_nil,
    Bool.or_false, Bool.or_eq_false_iff, Bool.and_eq_false_iff,
    decide_eq_false_iff_not]
  omega

theorem dropBlanks_cons {c : Char} (h : Text.isBlank c = false)
    (rest : List Char) : Text.dropBlanks (c :: rest) = c :: rest :=
  List.dropWhile_cons_of_neg (by simp [h])

theorem dropBlanks_digits {digits : List Char} (hne : digits ≠ [])
    (h : ∀ c ∈ digits, c.isDigit) (rest : List Char) :
    Text.dropBlanks (digits ++ rest) = digits ++ rest := by
  obtain ⟨c, tail, rfl⟩ := List.exists_cons_of_ne_nil hne
  exact dropBlanks_cons (not_isBlank_of_isDigit (h c List.mem_cons_self)) _

/-- With a limit of their number, digits are read whatever follows. -/
theorem readNumber_limit {digits : List Char} (hne : digits ≠ [])
    (h : ∀ c ∈ digits, c.isDigit) (rest : List Char) :
    readNumber (some digits.length) (digits ++ rest) =
      .ok (Nat.ofDigitChars 10 digits 0, rest) := by
  obtain ⟨c, tail, rfl⟩ := List.exists_cons_of_ne_nil hne
  have hc := h c List.mem_cons_self
  have htake : ((c :: tail ++ rest).takeWhile Char.isDigit).take
      (c :: tail).length = c :: tail := by
    rw [List.takeWhile_append_of_pos h, List.take_left]
  rw [List.cons_append, readNumber]
  simp only [hc, Bool.not_true, Bool.false_eq_true, reduceIte]
  rw [← List.cons_append, htake, List.drop_left]

/-- Without a limit, digits are read if no other follows. -/
theorem readNumber_all {digits rest : List Char} (hne : digits ≠ [])
    (h : ∀ c ∈ digits, c.isDigit)
    (hrest : ∀ c ∈ rest.head?, c.isDigit = false) :
    readNumber none (digits ++ rest) =
      .ok (Nat.ofDigitChars 10 digits 0, rest) := by
  obtain ⟨c, tail, rfl⟩ := List.exists_cons_of_ne_nil hne
  have hc := h c List.mem_cons_self
  have htake := Token.takeWhile_digits h hrest
  rw [List.cons_append, readNumber]
  simp only [hc, Bool.not_true, Bool.false_eq_true, reduceIte]
  rw [← List.cons_append, htake, List.drop_left]

theorem readTwo_padded {least greatest n : Nat} (hleast : least ≤ n)
    (hgreatest : n ≤ greatest) (hn : n < 100) (rest : List Char) :
    readTwo least greatest (padded 2 n ++ rest) = .ok (n, rest) := by
  have hlen : (padded 2 n).length = 2 := length_padded (by decide) hn
  have hread := readNumber_limit (padded_ne_nil 2 n) (isDigit_padded 2 n) rest
  rw [hlen, ofDigitChars_padded] at hread
  rw [readTwo, dropBlanks_digits (padded_ne_nil 2 n) (isDigit_padded 2 n),
    hread]
  simp [bind, Except.bind, hleast, hgreatest]

/-! ## The parts of a moment -/

theorem readMark_cons {mark : Char} (h : Text.isBlank mark = false)
    (rest : List Char) : readMark mark (mark :: rest) = .ok ((), rest) := by
  rw [readMark, dropBlanks_cons h]
  simp

theorem readYear_write {year : Int} (hlow : Date.firstYear ≤ year)
    (hhigh : year ≤ Date.lastYear) (rest : List Char) :
    readYear (writeYear year ++ '-' :: rest) = .ok (year, '-' :: rest) := by
  rw [Date.firstYear] at hlow
  rw [Date.lastYear] at hhigh
  have hrange : Int32.minValue.toInt ≤ year ∧ year ≤ Int32.maxValue.toInt := by
    have hmin : Int32.minValue.toInt = -2147483648 := by decide
    have hmax : Int32.maxValue.toInt = 2147483647 := by decide
    omega
  have hne := padded_ne_nil 4 year.natAbs
  have hdigits := isDigit_padded 4 year.natAbs
  have hvalue := ofDigitChars_padded 4 year.natAbs
  have hall := @readNumber_all _ ('-' :: rest) hne hdigits
    (by rintro _ ⟨⟩; rfl)
  rw [hvalue] at hall
  rw [writeYear]
  split
  · next hfour =>
      have hlen : (padded 4 year.natAbs).length = 4 :=
        length_padded (by decide) (by show year.natAbs < 10000; omega)
      have hread := readNumber_limit hne hdigits ('-' :: rest)
      rw [hlen, hvalue] at hread
      rw [readYear, dropBlanks_digits hne hdigits]
      -- The text begins with a digit and so with no sign.
      obtain ⟨c, tail, hcons⟩ := List.exists_cons_of_ne_nil hne
      have hc : c.isDigit := hdigits c (hcons ▸ List.mem_cons_self)
      have hyear : (year.natAbs : Int) = year := by omega
      split
      · next heq =>
          rw [hcons] at heq
          obtain ⟨rfl, -⟩ := List.cons.inj heq
          cases hc
      · next heq =>
          rw [hcons] at heq
          obtain ⟨rfl, -⟩ := List.cons.inj heq
          cases hc
      · simp only [bind, Except.bind, pure, Except.pure, hread, hyear,
          if_pos hrange]
  · next hfour =>
      split
      · next hneg =>
          have hyear : -(year.natAbs : Int) = year := by omega
          rw [List.cons_append, readYear, dropBlanks_cons (by decide)]
          simp only [bind, Except.bind, pure, Except.pure, hall, hyear,
            if_pos hrange]
      · next hneg =>
          have hyear : (year.natAbs : Int) = year := by omega
          rw [List.cons_append, readYear, dropBlanks_cons (by decide)]
          simp only [bind, Except.bind, pure, Except.pure, hall, hyear,
            if_pos hrange]

theorem take_nine {digits : List Char} (h : digits.length ≤ 9) :
    (digits ++ List.replicate 9 '0').take 9 =
      digits ++ List.replicate (9 - digits.length) '0' := by
  rw [List.take_append, List.take_of_length_le h, List.take_replicate,
    Nat.min_eq_left (Nat.sub_le _ _)]

/-- A fraction of `width` digits is read in nanoseconds. -/
theorem readFraction_padded {width n : Nat} (hwidth : 0 < width)
    (hnine : width ≤ 9) (hn : n < Nat.pow 10 width) :
    readFraction ('.' :: padded width n ++ ['Z']) =
      .ok (Nat.pow 10 (9 - width) * n, ['Z']) := by
  have hlen := length_padded hwidth hn
  have hdigits := isDigit_padded width n
  have hzone : ∀ c ∈ ['Z'].head?, c.isDigit = false := by
    rintro _ ⟨⟩
    rfl
  have hread := readNumber_all (padded_ne_nil width n) hdigits hzone
  have htake := Token.takeWhile_digits hdigits hzone
  rw [List.cons_append, readFraction]
  simp only [bind, Except.bind, hread, htake]
  rw [take_nine (by omega), hlen, Nat.ofDigitChars_append,
    ofDigitChars_padded, Nat.ofDigitChars_replicate_zero]
  rfl

theorem readFraction_write {n : Nat} (h : n < 1000000000) :
    readFraction (writeFraction n ++ ['Z']) = .ok (n, ['Z']) := by
  rw [writeFraction]
  split
  · next hzero =>
      rw [hzero]
      rfl
  · split
    · next hmilli =>
        rw [readFraction_padded (by decide) (by decide)
          (by show _ < 1000; omega)]
        show Except.ok (1000000 * (n / 1000000), _) = _
        rw [Nat.mul_div_cancel' (Nat.dvd_of_mod_eq_zero hmilli)]
    · split
      · next hmicro =>
          rw [readFraction_padded (by decide) (by decide)
            (by show _ < 1000000; omega)]
          show Except.ok (1000 * (n / 1000), _) = _
          rw [Nat.mul_div_cancel' (Nat.dvd_of_mod_eq_zero hmicro)]
      · rw [readFraction_padded (by decide) (by decide) h]
        show Except.ok (1 * n, _) = _
        rw [Nat.one_mul]

theorem of?_eq (m : Moment) :
    of? m.date m.hour m.minute m.second m.nanosecond = some m :=
  dif_pos ⟨m.hour_lt, m.minute_lt, m.second_le, m.nanosecond_lt⟩

theorem earlier?_zero (m : Moment) : m.earlier? 0 = some m := by
  have hhour := m.hour_lt
  have hminute := m.minute_lt
  have hwithin : (((m.hour * 60 + m.minute : Nat) - 0 : Int) % 1440).toNat =
      m.hour * 60 + m.minute := by omega
  have hdiv : (m.hour * 60 + m.minute) / 60 = m.hour := by omega
  have hmod : (m.hour * 60 + m.minute) % 60 = m.minute := by omega
  simp only [earlier?, hwithin, hdiv, hmod]
  rw [if_neg (by omega), if_pos (by omega), Option.bind_some, of?_eq]

/-- A moment is read back from its text. -/
theorem read_write (m : Moment) : read m.write = .ok m := by
  obtain ⟨⟨hfirst, hlast⟩, ⟨hmonth, hmonth'⟩, hday, hday'⟩ := m.date.isDay
  have hmax : Date.daysIn m.date.year m.date.month ≤ 31 := by
    rw [Date.daysIn]
    split
    · split <;> decide
    · split <;> decide
  have hhour := m.hour_lt
  have hminute := m.minute_lt
  have hsecond := m.second_le
  have hdate : Date.of? m.date.year m.date.month m.date.day = some m.date :=
    dif_pos m.date.isDay
  have hdash := @readMark_cons '-' (by decide)
  have hcolon := @readMark_cons ':' (by decide)
  have hjoin (rest : List Char) : readJoin ('T' :: rest) = .ok ((), rest) := rfl
  have hyear := readYear_write hfirst hlast
  have hmonth := readTwo_padded hmonth hmonth' (by omega)
  have hday := readTwo_padded hday (Nat.le_trans hday' hmax) (by omega)
  have hhour := readTwo_padded (Nat.zero_le _) (Nat.le_of_lt_succ hhour)
    (by omega)
  have hminute := readTwo_padded (Nat.zero_le _) (Nat.le_of_lt_succ hminute)
    (by omega)
  have hsecond := readTwo_padded (Nat.zero_le _) hsecond (by omega)
  have hfraction := readFraction_write m.nanosecond_lt
  have hblanks : Text.dropBlanks ['Z'] = ['Z'] := rfl
  have hzone : readZone ['Z'] = .ok (0, []) := rfl
  have hend : Text.dropBlanks [] = [] := rfl
  simp only [write, List.append_assoc, List.cons_append, read, bind,
    Except.bind, hyear, hdash, hmonth, hday, hjoin, hhour, hcolon, hminute,
    hsecond, hfraction, hblanks, hzone, hend, hdate, of?_eq, earlier?_zero]
  rfl

end Moment

end Flowgraph
