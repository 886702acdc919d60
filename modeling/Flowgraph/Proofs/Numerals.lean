import Flowgraph.Proofs.Lexing

/-!
# Reading written numerals

A numeral that is well formed is read back in its parts, however the text goes
on, as long as that is not with a character that could belong to it. Its value
is then a matter of arithmetic on its parts. For a whole number that fits into
64 bits the value is the number itself.
-/

namespace Flowgraph

namespace Token

/-- What may stand behind a numeral without being taken for a part of it. -/
def Breaks (rest : List Char) : Prop :=
  ∀ c ∈ rest.head?, c.isDigit = false ∧ c ≠ '.' ∧ c ≠ 'e' ∧ c ≠ 'E'

theorem breaks_nil : Breaks [] := nofun

theorem takeWhile_digits {digits rest : List Char}
    (hdigits : ∀ c ∈ digits, c.isDigit)
    (hrest : ∀ c ∈ rest.head?, c.isDigit = false) :
    (digits ++ rest).takeWhile Char.isDigit = digits := by
  rw [List.takeWhile_append_of_pos hdigits]
  cases rest with
  | nil => simp
  | cons c rest => simp [hrest c rfl]

theorem dropWhile_digits {digits rest : List Char}
    (hdigits : ∀ c ∈ digits, c.isDigit)
    (hrest : ∀ c ∈ rest.head?, c.isDigit = false) :
    (digits ++ rest).dropWhile Char.isDigit = rest := by
  rw [List.dropWhile_append_of_pos hdigits]
  cases rest with
  | nil => rfl
  | cons c rest => simp [hrest c rfl]

end Token

namespace Numeral

/-- The point and the digits behind it. -/
def fractionText : Option (List Char) → List Char
  | none => []
  | some digits => '.' :: digits

/-- An exponent with its sign. -/
def exponentText : Option Int → List Char
  | none => []
  | some n => 'e' :: (if n < 0 then '-' else '+') :: Nat.toDigits 10 n.natAbs

/-- A numeral as it is written, its sign left out. -/
def unsignedText (n : Numeral) : List Char :=
  n.whole ++ fractionText n.fraction ++ exponentText n.exponent

/-- A numeral as it is written. -/
def text (n : Numeral) : List Char :=
  (if n.negative then ['-'] else []) ++ n.unsignedText

/-- One or more digits. -/
def IsRun (digits : List Char) : Prop :=
  digits ≠ [] ∧ ∀ c ∈ digits, c.isDigit

theorem isRun_toDigits (n : Nat) : IsRun (Nat.toDigits 10 n) :=
  ⟨Nat.toDigits_ne_nil,
    fun _ hc => Nat.isDigit_of_mem_toDigits (by decide) (by decide) hc⟩

/-- Digits where digits have to be, and no zero in front of others. -/
structure WellFormed (n : Numeral) : Prop where
  whole : IsRun n.whole
  no_leading_zero : n.whole.head? = some '0' → n.whole = ['0']
  fraction : ∀ digits ∈ n.fraction, IsRun digits

end Numeral

namespace Token

theorem lexWhole_append {whole rest : List Char}
    (hwhole : Numeral.IsRun whole)
    (hzero : whole.head? = some '0' → whole = ['0'])
    (hrest : ∀ c ∈ rest.head?, c.isDigit = false) :
    lexWhole (whole ++ rest) = .ok (whole, rest) := by
  obtain ⟨hne, hdigits⟩ := hwhole
  cases whole with
  | nil => exact absurd rfl hne
  | cons c tail =>
      have hc := hdigits c List.mem_cons_self
      by_cases h : c = '0'
      · subst h
        obtain ⟨-, rfl⟩ := List.cons.inj (hzero rfl)
        cases rest with
        | nil => rfl
        | cons d rest => simp [lexWhole, hrest d rfl]
      · have htake := takeWhile_digits hdigits hrest
        have hdrop := dropWhile_digits hdigits hrest
        rw [List.cons_append] at htake hdrop ⊢
        simp [lexWhole, hc, h, htake, hdrop]

theorem lexFraction_append {fraction : Option (List Char)} {rest : List Char}
    (hfraction : ∀ digits ∈ fraction, Numeral.IsRun digits)
    (hrest : ∀ c ∈ rest.head?, c.isDigit = false ∧ c ≠ '.') :
    lexFraction (Numeral.fractionText fraction ++ rest) =
      .ok (fraction, rest) := by
  have hdigit : ∀ c ∈ rest.head?, c.isDigit = false :=
    fun c hc => (hrest c hc).1
  cases fraction with
  | none =>
      cases rest with
      | nil => rfl
      | cons c rest => simp [Numeral.fractionText, lexFraction, (hrest c rfl).2]
  | some digits =>
      obtain ⟨hne, hdigits⟩ := hfraction digits rfl
      rw [Numeral.fractionText, List.cons_append, lexFraction,
        takeWhile_digits hdigits hdigit, dropWhile_digits hdigits hdigit]
      simp [hne]

theorem lexExponent_append (exponent : Option Int) {rest : List Char}
    (hrest : Breaks rest) :
    lexExponent (Numeral.exponentText exponent ++ rest) =
      .ok (exponent, rest) := by
  have hdigit : ∀ c ∈ rest.head?, c.isDigit = false :=
    fun c hc => (hrest c hc).1
  cases exponent with
  | none =>
      cases rest with
      | nil => rfl
      | cons c rest =>
          obtain ⟨-, -, he, hE⟩ := hrest c rfl
          simp [Numeral.exponentText, lexExponent, he, hE]
  | some n =>
      obtain ⟨hne, hdigits⟩ := Numeral.isRun_toDigits n.natAbs
      have htake := takeWhile_digits hdigits hdigit
      have hdrop := dropWhile_digits hdigits hdigit
      rw [Numeral.exponentText]
      by_cases hn : n < 0
      · have hvalue : -(n.natAbs : Int) = n := by omega
        generalize n.natAbs = m at hvalue htake hdrop hne ⊢
        simp [lexExponent, hn, htake, hdrop, hvalue, hne]
      · have hvalue : (n.natAbs : Int) = n := by omega
        generalize n.natAbs = m at hvalue htake hdrop hne ⊢
        simp [lexExponent, hn, htake, hdrop, hvalue, hne]

/-- A numeral is read as it was written, however the text goes on. -/
theorem lexNumeral_append {n : Numeral} (h : n.WellFormed) {rest : List Char}
    (hrest : Breaks rest) :
    lexNumeral n.negative (n.unsignedText ++ rest) = .ok (n, rest) := by
  have hexponent : ∀ c ∈ (Numeral.exponentText n.exponent ++ rest).head?,
      c.isDigit = false ∧ c ≠ '.' := by
    cases n.exponent with
    | none => exact fun c hc => ⟨(hrest c hc).1, (hrest c hc).2.1⟩
    | some e =>
        rintro c ⟨⟩
        decide
  have hfraction : ∀ c ∈ (Numeral.fractionText n.fraction ++
      (Numeral.exponentText n.exponent ++ rest)).head?, c.isDigit = false := by
    cases n.fraction with
    | none => exact fun c hc => (hexponent c hc).1
    | some digits =>
        rintro c ⟨⟩
        decide
  rw [Numeral.unsignedText, List.append_assoc, List.append_assoc, lexNumeral,
    lexWhole_append h.whole h.no_leading_zero hfraction]
  simp only [bind, Except.bind]
  rw [lexFraction_append h.fraction hexponent]
  simp only
  rw [lexExponent_append n.exponent hrest]

theorem lexToken_digit {c : Char} (h : c.isDigit) (text : List Char) :
    lexToken c text = lexNumber false (c :: text) := by
  fun_cases lexToken c text with
  | case12 => rfl
  | case13 c _ _ _ _ _ _ _ _ _ _ _ hc => exact absurd h hc
  | _ => cases h

theorem isSpace_of_isDigit {c : Char} (h : c.isDigit) : isSpace c = false := by
  cases hc : isSpace c with
  | false => rfl
  | true =>
      simp only [isSpace, Bool.or_eq_true, decide_eq_true_eq] at hc
      obtain ((rfl | rfl) | rfl) | rfl := hc <;> cases h

/-- A written numeral is read back as the number that it stands for. -/
theorem ofText_numeral {n : Numeral} (h : n.WellFormed) {rest : List Char}
    (hrest : Breaks rest) :
    ofText (n.text ++ rest) = .number n.value :: ofText rest := by
  have hlex : lexNumber n.negative (n.unsignedText ++ rest) =
      (.number n.value, rest) := by
    rw [lexNumber, lexNumeral_append h hrest]
  rw [Numeral.text]
  cases hsign : n.negative with
  | true =>
      rw [hsign] at hlex
      exact ofText_token (c := '-') (by decide) hlex
  | false =>
      rw [hsign] at hlex
      obtain ⟨c, tail, htext⟩ : ∃ c tail, n.whole = c :: tail :=
        List.exists_cons_of_ne_nil h.whole.1
      have hc : c.isDigit := h.whole.2 c (htext ▸ List.mem_cons_self)
      have hspace := isSpace_of_isDigit hc
      simp only [Numeral.unsignedText, htext, List.cons_append] at hlex ⊢
      exact ofText_token hspace ((lexToken_digit hc _).trans hlex)

end Token

/-! ## Whole numbers -/

namespace Numeral

/-- The numeral of a whole number. -/
def ofInt (n : Int) : Numeral := ⟨n < 0, Nat.toDigits 10 n.natAbs, none, none⟩

/-- The whole numbers that are read back as whole numbers. -/
def Fits (n : Int) : Prop := -(UInt64.size / 2 : Nat) ≤ n ∧ n < UInt64.size

instance (n : Int) : Decidable (Fits n) := inferInstanceAs (Decidable (_ ∧ _))

theorem text_ofInt (n : Int) : (ofInt n).text = Number.write (.integer n) := by
  simp [text, ofInt, unsignedText, fractionText, exponentText, Number.write]

theorem toDigits_eq_zero {n : Nat} (h : (Nat.toDigits 10 n).head? = some '0') :
    Nat.toDigits 10 n = ['0'] := by
  induction n using Nat.strongRecOn with
  | ind n ih =>
    by_cases hn : n < 10
    · rw [Nat.toDigits_of_lt_base hn] at h ⊢
      simpa using h
    · rw [Nat.toDigits_of_base_le (by decide) (by omega),
        List.head?_append_of_ne_nil _ Nat.toDigits_ne_nil] at h
      have hfront := ih (n / 10) (by omega) h
      have hvalue : n / 10 = 0 := by
        rw [← Nat.ofDigitChars_ten_toDigits (n := n / 10), hfront]
        rfl
      omega

theorem eq_zero_of_head? {n : Nat} (h : (Nat.toDigits 10 n).head? = some '0') :
    n = 0 := by
  rw [← Nat.ofDigitChars_ten_toDigits (n := n), toDigits_eq_zero h]
  rfl

theorem wellFormed_ofInt (n : Int) : (ofInt n).WellFormed where
  whole := isRun_toDigits n.natAbs
  no_leading_zero := toDigits_eq_zero
  fraction := nofun

theorem le_ofDigitChars (n : Nat) (digits : List Char) :
    n ≤ Nat.ofDigitChars 10 digits n := by
  induction digits generalizing n with
  | nil => simp
  | cons c digits ih =>
      rw [Nat.ofDigitChars_cons]
      exact Nat.le_trans (by omega) (ih _)

/-- Digits of a number below `2 ^ 64` are all taken in. -/
theorem absorb_of_lt {n : Nat} {digits : List Char}
    (h : Nat.ofDigitChars 10 digits n < UInt64.size) :
    absorb n digits = (Nat.ofDigitChars 10 digits n, 0) := by
  induction digits generalizing n with
  | nil => rfl
  | cons c digits ih =>
      have hstep : Nat.ofDigitChars 10 (c :: digits) n =
          Nat.ofDigitChars 10 digits (Nat.ofDigitChars 10 [c] n) := by
        simp [Nat.ofDigitChars_cons]
      rw [hstep] at h ⊢
      have hle := le_ofDigitChars (Nat.ofDigitChars 10 [c] n) digits
      rw [absorb, if_pos (by omega), ih h]

theorem value_ofInt {n : Int} (h : Fits n) :
    (ofInt n).value = .ok (.integer n) := by
  obtain ⟨hlow, hhigh⟩ := h
  simp only [UInt64.size] at hlow hhigh
  have habsorb : absorb 0 (Nat.toDigits 10 n.natAbs) = (n.natAbs, 0) := by
    rw [absorb_of_lt, Nat.ofDigitChars_ten_toDigits]
    rw [Nat.ofDigitChars_ten_toDigits, UInt64.size]
    omega
  simp only [value, ofInt, habsorb]
  by_cases hn : n < 0
  · have hrange : 0 < n.natAbs ∧ n.natAbs ≤ UInt64.size / 2 := by
      rw [UInt64.size]
      omega
    have hvalue : -(n.natAbs : Int) = n := by omega
    generalize n.natAbs = m at hrange hvalue ⊢
    simp [hn, hrange, hvalue]
  · have hvalue : (n.natAbs : Int) = n := by omega
    generalize n.natAbs = m at hvalue ⊢
    simp [hn, hvalue]

end Numeral

end Flowgraph
