import Flowgraph.Json.Text
import Flowgraph.Json.Token
import Mathlib.Data.List.Forall2
import Mathlib.Tactic.Common

/-!
# Cutting written text into tokens

The tokens of a text are found one after another, each of them taking at least
one character. So the count that bounds their number never cuts any off, and
`ofText` can be opened at the front: blanks are passed over, and any other
character begins a token behind which the rest of the text is cut on its own.

What a writer puts down is then followed piece by piece. A string comes back as
it was because every character is written as one piece that says it, whatever
stands around it; a word comes back letter by letter.
-/

namespace Flowgraph

theorem bind_eq_ok {ε α β : Type} {x : Except ε α} {f : α → Except ε β}
    {b : β} :
    x >>= f = .ok b ↔ ∃ a, x = .ok a ∧ f a = .ok b := by
  cases x with
  | error e => simp [bind, Except.bind]
  | ok a => simp [bind, Except.bind]

theorem map_eq_ok {ε α β : Type} {x : Except ε α} {f : α → β} {b : β} :
    f <$> x = .ok b ↔ ∃ a, x = .ok a ∧ f a = b := by
  cases x with
  | error e => simp [Functor.map, Except.map]
  | ok a => simp [Functor.map, Except.map]

namespace Token

/-! ## Every token takes a character -/

theorem Pieces.cons_eq_closed {p : Piece} {q : Pieces} {ps : List Piece}
    {rest : List Char} (h : q.cons p = .closed ps rest) :
    ∃ qs, q = .closed qs rest := by
  cases q with
  | closed qs rest' =>
      obtain ⟨-, rfl⟩ := Pieces.closed.inj h
      exact ⟨qs, rfl⟩
  | broken qs fault lead => cases h

theorem length_le_of_pieces {text rest : List Char} {ps : List Piece}
    (h : pieces text = .closed ps rest) : rest.length ≤ text.length := by
  fun_induction pieces text generalizing ps with
  | case2 tail =>
      cases h
      exact Nat.le_succ _
  | case4 a b c d tail n hn ih =>
      obtain ⟨qs, hq⟩ := Pieces.cons_eq_closed h
      have hle := ih hq
      simp only [List.length_cons]
      omega
  | case7 e tail _ _ c hc ih =>
      obtain ⟨qs, hq⟩ := Pieces.cons_eq_closed h
      have hle := ih hq
      simp only [List.length_cons]
      omega
  | case10 c tail _ _ _ _ _ _ ih =>
      obtain ⟨qs, hq⟩ := Pieces.cons_eq_closed h
      exact Nat.le_succ_of_le (ih hq)
  | _ => cases h

theorem length_lexString_le (text : List Char) :
    (lexString text).2.length ≤ text.length := by
  rw [lexString]
  split
  · next ps rest h => exact length_le_of_pieces h
  · exact Nat.zero_le _

theorem length_lexWord_le (token : Token) (word text : List Char) :
    (lexWord token word text).2.length ≤ text.length := by
  fun_induction lexWord token word text with
  | case3 w word text ih => exact Nat.le_succ_of_le ih
  | _ => simp

theorem length_lt_of_lexWhole {text whole rest : List Char}
    (h : lexWhole text = .ok (whole, rest)) : rest.length < text.length := by
  revert h
  fun_cases lexWhole text with
  | case4 d tail hd =>
      intro h
      cases h
      exact Nat.lt_succ_self _
  | case5 =>
      intro h
      cases h
      exact Nat.one_pos
  | case6 c tail hc hzero =>
      intro h
      cases h
      rw [List.dropWhile_cons_of_pos (by simpa using hc)]
      exact Nat.lt_succ_of_le (List.dropWhile_suffix _).length_le
  | _ => nofun

theorem length_le_of_lexFraction {text rest : List Char}
    {fraction : Option (List Char)}
    (h : lexFraction text = .ok (fraction, rest)) :
    rest.length ≤ text.length := by
  revert h
  fun_cases lexFraction text with
  | case1 => nofun
  | case2 tail digits hd =>
      intro h
      cases h
      exact Nat.le_succ_of_le (List.dropWhile_suffix _).length_le
  | case3 =>
      intro h
      cases h
      exact Nat.le_refl _

theorem length_le_of_lexExponent {text rest : List Char} {exponent : Option Int}
    (h : lexExponent text = .ok (exponent, rest)) :
    rest.length ≤ text.length := by
  revert h
  fun_cases lexExponent text with
  | case3 e tail he sign behind hsign digits hd value =>
      intro h
      cases h
      have hdrop : (behind.dropWhile Char.isDigit).length ≤ behind.length :=
        (List.dropWhile_suffix _).length_le
      have hbehind : behind.length ≤ tail.length := by
        split at hsign <;> cases hsign <;> simp
      exact Nat.le_succ_of_le (Nat.le_trans hdrop hbehind)
  | case2 => nofun
  | _ =>
      intro h
      cases h
      exact Nat.le_refl _

theorem length_lt_of_lexNumeral {negative : Bool} {text rest : List Char}
    {numeral : Numeral} (h : lexNumeral negative text = .ok (numeral, rest)) :
    rest.length < text.length := by
  obtain ⟨⟨whole, text₁⟩, hwhole, h⟩ := bind_eq_ok.mp h
  obtain ⟨⟨fraction, text₂⟩, hfraction, h⟩ := bind_eq_ok.mp h
  obtain ⟨⟨exponent, text₃⟩, hexponent, h⟩ := bind_eq_ok.mp h
  cases h
  have h₁ := length_lt_of_lexWhole hwhole
  have h₂ := length_le_of_lexFraction hfraction
  have h₃ := length_le_of_lexExponent hexponent
  omega

theorem length_lexNumber_le (negative : Bool) (text : List Char) :
    (lexNumber negative text).2.length ≤ text.length - 1 := by
  rw [lexNumber]
  split
  · next numeral rest h =>
      exact Nat.le_sub_one_of_lt (length_lt_of_lexNumeral h)
  · exact Nat.zero_le _

theorem length_lexToken_le (c : Char) (text : List Char) :
    (lexToken c text).2.length ≤ text.length := by
  fun_cases lexToken c text with
  | case7 => exact length_lexString_le text
  | case8 => exact length_lexWord_le _ _ text
  | case9 => exact length_lexWord_le _ _ text
  | case10 => exact length_lexWord_le _ _ text
  | case11 =>
      exact Nat.le_trans (length_lexNumber_le true text) (Nat.sub_le _ _)
  | case12 => exact length_lexNumber_le false (c :: text)
  | case13 => exact Nat.zero_le _
  | _ => exact Nat.le_refl _

/-! ## The tokens of a text

The length of a text bounds the number of its tokens, so the count that
`lexUpTo` is given never cuts anything off. -/

theorem lexUpTo_succ (count : Nat) (c : Char) (text : List Char) :
    lexUpTo (count + 1) (c :: text) =
      if isSpace c then lexUpTo (count + 1) text
      else (lexToken c text).1 :: lexUpTo count (lexToken c text).2 := by
  cases h : isSpace c <;> simp [lexUpTo, h]

theorem lexUpTo_eq {count : Nat} {text : List Char} (h : text.length ≤ count) :
    lexUpTo count text = ofText text := by
  -- A token takes several characters, so the induction is on the length.
  obtain ⟨n, hn⟩ : ∃ n, text.length = n := ⟨_, rfl⟩
  induction n using Nat.strongRecOn generalizing count text with
  | ind n ih =>
    cases text with
    | nil => cases count <;> simp [ofText, lexUpTo]
    | cons c text =>
        obtain ⟨count, rfl⟩ : ∃ k, count = k + 1 :=
          Nat.exists_eq_add_one_of_ne_zero (by simp at h; omega)
        simp only [List.length_cons] at h hn
        have hrest := length_lexToken_le c text
        rw [ofText, List.length_cons, lexUpTo_succ, lexUpTo_succ]
        split
        · rw [ih text.length (by omega) (by omega) rfl,
            ih text.length (by omega) (by omega) rfl]
        · rw [ih _ (by omega) (by omega) rfl, ih _ (by omega) (by omega) rfl]

@[simp] theorem ofText_nil : ofText [] = [] := rfl

theorem ofText_cons (c : Char) (text : List Char) :
    ofText (c :: text) =
      if isSpace c then ofText text
      else (lexToken c text).1 :: ofText (lexToken c text).2 := by
  rw [ofText, List.length_cons, lexUpTo_succ, lexUpTo_eq (Nat.le_succ _),
    lexUpTo_eq (length_lexToken_le c text)]

theorem ofText_token {c : Char} {text rest : List Char} {token : Token}
    (hc : isSpace c = false) (h : lexToken c text = (token, rest)) :
    ofText (c :: text) = token :: ofText rest := by
  simp [ofText_cons, hc, h]

theorem ofText_spaces {spaces : List Char} (h : ∀ c ∈ spaces, isSpace c)
    (text : List Char) : ofText (spaces ++ text) = ofText text := by
  induction spaces with
  | nil => rfl
  | cons c spaces ih =>
      rw [List.forall_mem_cons] at h
      rw [List.cons_append, ofText_cons, if_pos h.1, ih h.2]

/-! ## Strings

Each character of a string is written as one piece, which stands for that
character wherever it is. -/

/-- The piece says the character by itself. -/
def Piece.Says (c : Char) : Piece → Prop
  | plain d => d = c
  | unit n => n = c.toNat

theorem not_surrogate (c : Char) :
    isLead c.toNat = false ∧ isTrail c.toNat = false := by
  have hvalid : c.toNat < 0xd800 ∨ 0xdfff < c.toNat ∧ c.toNat < 0x110000 :=
    c.valid
  constructor
  · rw [isLead, Bool.and_eq_false_iff, decide_eq_false_iff_not,
      decide_eq_false_iff_not]
    omega
  · rw [isTrail, Bool.and_eq_false_iff, decide_eq_false_iff_not,
      decide_eq_false_iff_not]
    omega

theorem characters_cons {c : Char} {p : Piece} (h : p.Says c)
    (afterLead : Malformed) (rest : List Piece) :
    characters afterLead (p :: rest) =
      (characters afterLead rest).map (c :: ·) := by
  cases p with
  | plain d =>
      obtain rfl : d = c := h
      rw [characters]
  | unit n =>
      obtain rfl : n = c.toNat := h
      obtain ⟨hlead, htrail⟩ := not_surrogate c
      cases rest with
      | nil => simp [characters, hlead, htrail, Except.map]
      | cons q rest =>
          cases q <;> simp [characters, hlead, htrail]

theorem characters_of_says {s : List Char} {ps : List Piece}
    (h : List.Forall₂ Piece.Says s ps) (afterLead : Malformed) :
    characters afterLead ps = .ok s := by
  induction h with
  | nil => rfl
  | cons hp _ ih => rw [characters_cons hp, ih, Except.map]

theorem hexDigit?_digitChar {n : Nat} (h : n < 16) :
    hexDigit? (Nat.digitChar n) = some n := by
  revert n
  decide

theorem pieces_escape (c : Char) (rest : List Char) :
    ∃ p : Piece, p.Says c ∧
      pieces (Json.escape c ++ rest) = (pieces rest).cons p := by
  fun_cases Json.escape c with
  | case8 c _ _ _ _ _ _ _ hc =>
      have hhex : hexUnit? '0' '0' (Nat.digitChar (c.toNat / 16))
          (Nat.digitChar (c.toNat % 16)) = some c.toNat := by
        rw [hexUnit?, hexDigit?_digitChar (n := c.toNat / 16) (by omega),
          hexDigit?_digitChar (n := c.toNat % 16) (by omega)]
        show some _ = some _
        congr 1
        show ((0 * 16 + 0) * 16 + _) * 16 + _ = _
        omega
      refine ⟨.unit c.toNat, rfl, ?_⟩
      simp only [List.cons_append, List.nil_append, pieces, hhex]
  | case9 c hquote hback _ _ _ _ _ hc =>
      refine ⟨.plain c, rfl, ?_⟩
      show pieces (c :: rest) = _
      rw [pieces, if_neg hc]
      all_goals intros; contradiction
  | _ => exact ⟨.plain _, rfl, rfl⟩

theorem pieces_escaped (s rest : List Char) :
    ∃ ps, List.Forall₂ Piece.Says s ps ∧
      pieces (s.flatMap Json.escape ++ '"' :: rest) = .closed ps rest := by
  induction s with
  | nil => exact ⟨[], .nil, rfl⟩
  | cons c s ih =>
      obtain ⟨ps, hps, hrest⟩ := ih
      obtain ⟨p, hp, hc⟩ :=
        pieces_escape c (s.flatMap Json.escape ++ '"' :: rest)
      refine ⟨p :: ps, .cons hp hps, ?_⟩
      rw [List.flatMap_cons, List.append_assoc, hc, hrest, Pieces.cons]

/-- A written string is read back as it was. -/
theorem ofText_string (s : String) (rest : List Char) :
    ofText (Json.writeString s ++ rest) = .string (.ok s) :: ofText rest := by
  obtain ⟨ps, hps, hpieces⟩ := pieces_escaped s.toList rest
  rw [Json.writeString, List.cons_append, List.cons_append, List.append_assoc]
  refine ofText_token (by decide) ?_
  have hchars := characters_of_says hps .escapeCutOff
  simp [lexToken, lexString, hpieces, hchars, Except.map]

/-! ## Words -/

theorem lexWord_append (token : Token) (word rest : List Char) :
    lexWord token word (word ++ rest) = (token, rest) := by
  induction word with
  | nil => rfl
  | cons w word ih => rw [List.cons_append, lexWord, if_pos rfl, ih]

theorem ofText_null (rest : List Char) :
    ofText ("null".toList ++ rest) = .null :: ofText rest :=
  ofText_token (by decide) (lexWord_append .null "ull".toList rest)

theorem ofText_bool (b : Bool) (rest : List Char) :
    ofText (Json.writeBool b ++ rest) = .bool b :: ofText rest := by
  cases b with
  | false =>
      exact ofText_token (by decide)
        (lexWord_append (.bool false) "alse".toList rest)
  | true =>
      exact ofText_token (by decide)
        (lexWord_append (.bool true) "rue".toList rest)

end Token

end Flowgraph
