import Flowgraph.Proofs.Layouts

/-!
# The tokens of a written value

Either form of a value is cut into the same tokens wherever it stands, as long
as what follows could not go on with a numeral. `Lexes` says that of a text and
tokens. It passes from parts to the whole: parts with commas between them, and
brackets around them, on lines of their own or not. So the tokens of a value are
given by recursion on the value, and so is the proof for each of the forms.

An infinite number is written as `null`, and that is its token.
-/

namespace Flowgraph

open Token (Breaks)

/-- The token that a number is written as. -/
def Number.token (n : Number) : Token :=
  match n.numeral? with
  | some m => .number m.value
  | none => .null

/-- The parts of a list or an object with commas between them. -/
def joinTokens : List (List Token) → List Token
  | [] => []
  | [part] => part
  | part :: rest => part ++ .comma :: joinTokens rest

namespace Json

mutual

/-- The tokens that a value is written as. -/
def tokens : Json → List Token
  | .null => [.null]
  | .bool b => [.bool b]
  | .number n => [n.token]
  | .string s => [.string (.ok s)]
  | .array items => .openList :: joinTokens (itemTokens items) ++ [.closeList]
  | .object members =>
    .openObject :: joinTokens (memberTokens members) ++ [.closeObject]

/-- The tokens of items. -/
def itemTokens : List Json → List (List Token)
  | [] => []
  | j :: rest => j.tokens :: itemTokens rest

/-- The tokens of members. -/
def memberTokens : List (String × Json) → List (List Token)
  | [] => []
  | (k, j) :: rest =>
    (.string (.ok k) :: .colon :: j.tokens) :: memberTokens rest

end

end Json

/-! ## Texts and their tokens -/

/-- The text is cut into the tokens, wherever it stands. -/
def Lexes (text : List Char) (tokens : List Token) : Prop :=
  ∀ rest, Breaks rest →
    Token.ofText (text ++ rest) = tokens ++ Token.ofText rest

namespace Token

theorem ofText_comma (text : List Char) :
    ofText (',' :: text) = .comma :: ofText text :=
  ofText_token (by decide) rfl

theorem ofText_colon (text : List Char) :
    ofText (':' :: text) = .colon :: ofText text :=
  ofText_token (by decide) rfl

theorem breaks_comma (text : List Char) : Breaks (',' :: text) := by
  rintro _ ⟨⟩
  decide

theorem breaks_closeList (text : List Char) : Breaks (']' :: text) := by
  rintro _ ⟨⟩
  decide

theorem breaks_closeObject (text : List Char) : Breaks ('\x7d' :: text) := by
  rintro _ ⟨⟩
  decide

theorem breaks_newLine (depth : Nat) (text : List Char) :
    Breaks (Json.newLine depth ++ text) := by
  rintro _ ⟨⟩
  decide

theorem ofText_newLine (depth : Nat) (text : List Char) :
    ofText (Json.newLine depth ++ text) = ofText text := by
  refine ofText_spaces (fun c hc => ?_) text
  rcases List.mem_cons.mp hc with rfl | hc
  · rfl
  · rw [List.eq_of_mem_replicate hc]
    rfl

end Token

/-- A separator is a comma and then blanks. -/
def Separates (separator : List Char) : Prop :=
  ∃ blanks, separator = ',' :: blanks ∧ ∀ c ∈ blanks, Token.isSpace c

theorem separates_newLine (depth : Nat) :
    Separates (',' :: Json.newLine depth) := by
  refine ⟨_, rfl, fun c hc => ?_⟩
  rcases List.mem_cons.mp hc with rfl | hc
  · rfl
  · rw [List.eq_of_mem_replicate hc]
    rfl

theorem separates_comma : Separates [','] := ⟨[], rfl, nofun⟩

theorem lexes_joinWith {separator : List Char} (hsep : Separates separator)
    {texts : List (List Char)} {parts : List (List Token)}
    (h : List.Forall₂ Lexes texts parts) :
    Lexes (Json.joinWith separator texts) (joinTokens parts) := by
  obtain ⟨blanks, rfl, hblanks⟩ := hsep
  induction h with
  | nil => exact fun rest _ => rfl
  | @cons text part texts parts hpart hrest ih =>
      cases hrest with
      | nil => exact hpart
      | cons hnext hmore =>
          intro rest hbreaks
          have htail := ih rest hbreaks
          simp only [Json.joinWith, joinTokens, List.append_assoc,
            List.cons_append] at htail ⊢
          rw [hpart _ (Token.breaks_comma _), Token.ofText_comma,
            Token.ofText_spaces hblanks, htail]

section

variable {opening closing : Char} {first last : Token}
  (hopening : ∀ text, Token.ofText (opening :: text) =
    first :: Token.ofText text)
  (hclosing : ∀ text, Token.ofText (closing :: text) =
    last :: Token.ofText text)

include hopening hclosing

theorem lexes_block (depth : Nat) {lines : List (List Char)}
    {parts : List (List Token)} (h : List.Forall₂ Lexes lines parts) :
    Lexes (Json.block opening closing depth lines)
      (first :: joinTokens parts ++ [last]) := by
  intro rest hbreaks
  have hinner := lexes_joinWith (separates_newLine (depth + 1)) h
  rw [Json.block]
  cases h with
  | nil =>
      simp only [List.isEmpty_nil, reduceIte, List.cons_append,
        List.nil_append, hopening, hclosing, joinTokens]
  | cons hline hlines =>
      rw [if_neg (by simp)]
      simp only [List.append_assoc, List.cons_append, List.nil_append, hopening,
        Token.ofText_newLine]
      rw [hinner _ (Token.breaks_newLine depth _), Token.ofText_newLine,
        hclosing]

theorem lexes_enclosed (hbreaks : ∀ text, Breaks (closing :: text))
    {texts : List (List Char)} {parts : List (List Token)}
    (h : List.Forall₂ Lexes texts parts) :
    Lexes (opening :: Json.joinWith [','] texts ++ [closing])
      (first :: joinTokens parts ++ [last]) := by
  intro rest _
  simp only [List.append_assoc, List.cons_append, List.nil_append, hopening]
  rw [lexes_joinWith separates_comma h _ (hbreaks rest), hclosing]

end

/-! ## Values -/

theorem lexes_number (n : Number) : Lexes n.write [n.token] := by
  intro rest hbreaks
  rw [Number.write_eq, Number.token]
  cases h : n.numeral? with
  | none => exact Token.ofText_null rest
  | some m => exact Token.ofText_numeral (Number.wellFormed_numeral? h) hbreaks

theorem lexes_member {blanks : List Char}
    (hblanks : ∀ c ∈ blanks, Token.isSpace c) (k : String) {text : List Char}
    {part : List Token} (h : Lexes text part) :
    Lexes (Json.writeString k ++ ':' :: (blanks ++ text))
      (.string (.ok k) :: .colon :: part) := by
  intro rest hbreaks
  rw [List.append_assoc, Token.ofText_string]
  simp only [List.cons_append, List.append_assoc]
  rw [Token.ofText_colon, Token.ofText_spaces hblanks, h rest hbreaks]

mutual

/-- The pretty form of a value is cut into the tokens of the value. -/
theorem lexes_writePretty (depth : Nat) :
    ∀ j : Json, Lexes (j.writePretty depth) j.tokens
  | .null => fun rest _ => Token.ofText_null rest
  | .bool b => fun rest _ => Token.ofText_bool b rest
  | .number n => lexes_number n
  | .string s => fun rest _ => Token.ofText_string s rest
  | .array items => by
      rw [Json.writePretty, Json.tokens]
      exact lexes_block (fun _ => Token.ofText_token (by decide) rfl)
        (fun _ => Token.ofText_token (by decide) rfl) depth
        (lexes_prettyItems (depth + 1) items)
  | .object members => by
      rw [Json.writePretty, Json.tokens]
      exact lexes_block (fun _ => Token.ofText_token (by decide) rfl)
        (fun _ => Token.ofText_token (by decide) rfl) depth
        (lexes_prettyMembers (depth + 1) members)

theorem lexes_prettyItems (depth : Nat) : ∀ items : List Json,
    List.Forall₂ Lexes (Json.prettyItems depth items) (Json.itemTokens items)
  | [] => .nil
  | j :: rest =>
    .cons (lexes_writePretty depth j) (lexes_prettyItems depth rest)

theorem lexes_prettyMembers (depth : Nat) : ∀ members : List (String × Json),
    List.Forall₂ Lexes (Json.prettyMembers depth members)
      (Json.memberTokens members)
  | [] => .nil
  | (k, j) :: rest =>
    have hblank : ∀ c ∈ [' '], Token.isSpace c :=
      List.forall_mem_singleton.mpr rfl
    .cons (lexes_member hblank k (lexes_writePretty depth j))
      (lexes_prettyMembers depth rest)

end

mutual

/-- The compact form of a value is cut into the same tokens. -/
theorem lexes_writeCompact : ∀ j : Json, Lexes j.writeCompact j.tokens
  | .null => fun rest _ => Token.ofText_null rest
  | .bool b => fun rest _ => Token.ofText_bool b rest
  | .number n => lexes_number n
  | .string s => fun rest _ => Token.ofText_string s rest
  | .array items => by
      rw [Json.writeCompact, Json.tokens]
      exact lexes_enclosed (fun _ => Token.ofText_token (by decide) rfl)
        (fun _ => Token.ofText_token (by decide) rfl) Token.breaks_closeList
        (lexes_compactItems items)
  | .object members => by
      rw [Json.writeCompact, Json.tokens]
      exact lexes_enclosed (fun _ => Token.ofText_token (by decide) rfl)
        (fun _ => Token.ofText_token (by decide) rfl) Token.breaks_closeObject
        (lexes_compactMembers members)

theorem lexes_compactItems : ∀ items : List Json,
    List.Forall₂ Lexes (Json.compactItems items) (Json.itemTokens items)
  | [] => .nil
  | j :: rest => .cons (lexes_writeCompact j) (lexes_compactItems rest)

theorem lexes_compactMembers : ∀ members : List (String × Json),
    List.Forall₂ Lexes (Json.compactMembers members) (Json.memberTokens members)
  | [] => .nil
  | (k, j) :: rest =>
    .cons (lexes_member (List.forall_mem_nil _) k (lexes_writeCompact j))
      (lexes_compactMembers rest)

end

/-- A pretty text holds the tokens of its value and nothing else. -/
theorem ofText_pretty (j : Json) : Token.ofText j.pretty.toList = j.tokens := by
  have h := lexes_writePretty 0 j [] Token.breaks_nil
  simpa [Json.pretty] using h

/-- So does a compact text. -/
theorem ofText_compact (j : Json) :
    Token.ofText j.compact.toList = j.tokens := by
  have h := lexes_writeCompact j [] Token.breaks_nil
  simpa [Json.compact] using h

end Flowgraph
