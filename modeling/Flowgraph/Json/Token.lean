import Flowgraph.Json.Numeral

/-!
# Tokens

A text is first cut into tokens. What is wrong inside a string or a numeral
depends on whether its value is wanted: a value that is only passed over may
hold half of a surrogate pair or a number that is too large, and a numeral that
the text cuts off is then a wrong numeral rather than an early end. So a token
that cannot be read carries two faults, one for a reader of its value and one
for a reader that passes over it. After such a token nothing is read.
-/

namespace Flowgraph

/-- A token of a JSON text. -/
inductive Token where
  | openList
  | closeList
  | openObject
  | closeObject
  | comma
  | colon
  | null
  | bool (value : Bool)
  | number (value : Except Malformed Number)
  | string (value : Except Malformed String)
  /-- A string that cannot even be passed over. -/
  | brokenString (read skip : Malformed)
  /-- Anything else that is no token. -/
  | broken (read skip : Malformed)

namespace Token

/-! ## Strings -/

/-- A piece of a string: a character, or a code unit given by four hexadecimal
digits. -/
inductive Piece where
  | plain (c : Char)
  | unit (n : Nat)

/-- The pieces up to the closing quote and the text after it, or the pieces up
to a fault. A leading surrogate right before the fault changes what a reader of
the value says: that is `afterLead`. -/
inductive Pieces where
  | closed (pieces : List Piece) (rest : List Char)
  | broken (pieces : List Piece) (fault afterLead : Malformed)

/-- Puts a piece in front. -/
def Pieces.cons (p : Piece) : Pieces → Pieces
  | closed pieces rest => closed (p :: pieces) rest
  | broken pieces fault afterLead => broken (p :: pieces) fault afterLead

/-- The value of a hexadecimal digit. -/
def hexDigit? (c : Char) : Option Nat :=
  if c.isDigit then some (c.toNat - '0'.toNat)
  else if 'a' ≤ c ∧ c ≤ 'f' then some (c.toNat - 'a'.toNat + 10)
  else if 'A' ≤ c ∧ c ≤ 'F' then some (c.toNat - 'A'.toNat + 10)
  else none

/-- The value of four hexadecimal digits. -/
def hexUnit? (a b c d : Char) : Option Nat := do
  let a ← hexDigit? a
  let b ← hexDigit? b
  let c ← hexDigit? c
  let d ← hexDigit? d
  some (((a * 16 + b) * 16 + c) * 16 + d)

/-- The character behind a backslash and a letter. -/
def unescape? : Char → Option Char
  | '"' => some '"'
  | '\\' => some '\\'
  | '/' => some '/'
  | 'b' => some '\x08'
  | 'f' => some '\x0c'
  | 'n' => some '\n'
  | 'r' => some '\r'
  | 't' => some '\t'
  | _ => none

/-- The pieces of a string whose opening quote is read. Four digits are counted
in the encoded text: with fewer than four bytes left the text has ended. -/
def pieces : List Char → Pieces
  | [] => .broken [] .endOfString .endOfString
  | '"' :: rest => .closed [] rest
  | ['\\'] => .broken [] .endOfString .endOfString
  | '\\' :: 'u' :: a :: b :: c :: d :: rest =>
    match hexUnit? a b c d with
    | some n => (pieces rest).cons (.unit n)
    | none => .broken [] .invalidEscape .invalidEscape
  | '\\' :: 'u' :: few =>
    let ended := (String.ofList few).utf8ByteSize < 4
    let fault := if ended then .endOfString else .invalidEscape
    .broken [] fault fault
  | '\\' :: e :: rest =>
    match unescape? e with
    | some c => (pieces rest).cons (.plain c)
    | none => .broken [] .invalidEscape .escapeCutOff
  | c :: rest =>
    if c.toNat < 0x20 then .broken [] .controlCharacter .escapeCutOff
    else (pieces rest).cons (.plain c)

/-- Whether a code unit is the first half of a pair. -/
def isLead (n : Nat) : Bool := 0xd800 ≤ n && n ≤ 0xdbff

/-- Whether a code unit is the second half of a pair. -/
def isTrail (n : Nat) : Bool := 0xdc00 ≤ n && n ≤ 0xdfff

/-- The character that two halves of a pair make. -/
def ofPair (lead trail : Nat) : Char :=
  Char.ofNat (0x10000 + (lead - 0xd800) * 0x400 + (trail - 0xdc00))

/-- The characters of pieces. `afterLead` is what is said about a first half
that stands last. -/
def characters (afterLead : Malformed) :
    List Piece → Except Malformed (List Char)
  | [] => .ok []
  | .plain c :: rest => (characters afterLead rest).map (c :: ·)
  | [.unit n] =>
    if isTrail n then .error .loneSurrogate
    else if isLead n then .error afterLead
    else .ok [Char.ofNat n]
  | .unit n :: .plain c :: rest =>
    if isTrail n then .error .loneSurrogate
    else if isLead n then .error .escapeCutOff
    else (characters afterLead (.plain c :: rest)).map (Char.ofNat n :: ·)
  | .unit n :: .unit m :: rest =>
    if isTrail n then .error .loneSurrogate
    else if isLead n then
      if isTrail m then (characters afterLead rest).map (ofPair n m :: ·)
      else .error .loneSurrogate
    else (characters afterLead (.unit m :: rest)).map (Char.ofNat n :: ·)

/-- A string token, its opening quote read. -/
def lexString (text : List Char) : Token × List Char :=
  match pieces text with
  | .closed pieces rest =>
    (.string ((characters .escapeCutOff pieces).map String.ofList), rest)
  | .broken pieces fault afterLead =>
    let read := match characters afterLead pieces with
      | .ok _ => fault
      | .error first => first
    (.brokenString read fault, [])

/-! ## Numerals -/

/-- A fault where a digit should stand: an early end for a reader of the
value. -/
def missingDigit (text : List Char) : Token :=
  .broken (if text.isEmpty then .endOfValue else .invalidNumber) .invalidNumber

/-- The exponent of a numeral, if there is one, and the text after it. -/
def lexExponent (text : List Char) : Except Token (Option Int × List Char) :=
  match text with
  | [] => .ok (none, [])
  | e :: rest =>
    if e = 'e' ∨ e = 'E' then
      let (sign, rest) : Int × List Char := match rest with
        | '+' :: rest => (1, rest)
        | '-' :: rest => (-1, rest)
        | rest => (1, rest)
      let digits := rest.takeWhile Char.isDigit
      if digits.isEmpty then .error (missingDigit rest)
      else
        let exponent := sign * Nat.ofDigitChars 10 digits 0
        .ok (some exponent, rest.dropWhile Char.isDigit)
    else .ok (none, text)

/-- The digits behind the point of a numeral, if there is one. -/
def lexFraction (text : List Char) :
    Except Token (Option (List Char) × List Char) :=
  match text with
  | '.' :: rest =>
    let digits := rest.takeWhile Char.isDigit
    if digits.isEmpty then .error (missingDigit rest)
    else .ok (some digits, rest.dropWhile Char.isDigit)
  | text => .ok (none, text)

/-- The digits of a numeral before its point: a zero stands alone. -/
def lexWhole (text : List Char) : Except Token (List Char × List Char) :=
  match text with
  | [] => .error (missingDigit [])
  | c :: rest =>
    if !c.isDigit then .error (missingDigit text)
    else if c = '0' then
      match rest with
      | d :: _ =>
        if d.isDigit then .error (.broken .invalidNumber .invalidNumber)
        else .ok (['0'], rest)
      | [] => .ok (['0'], [])
    else .ok (text.takeWhile Char.isDigit, text.dropWhile Char.isDigit)

/-- A numeral behind its sign. -/
def lexNumeral (negative : Bool) (text : List Char) :
    Except Token (Numeral × List Char) := do
  let (whole, text) ← lexWhole text
  let (fraction, text) ← lexFraction text
  let (exponent, text) ← lexExponent text
  .ok (⟨negative, whole, fraction, exponent⟩, text)

/-- A number token, its sign read. -/
def lexNumber (negative : Bool) (text : List Char) : Token × List Char :=
  match lexNumeral negative text with
  | .ok (numeral, rest) => (.number numeral.value, rest)
  | .error token => (token, [])

/-! ## All tokens -/

/-- A word behind its first letter. -/
def lexWord (token : Token) :
    (word : List Char) → (text : List Char) → Token × List Char
  | [], text => (token, text)
  | _ :: _, [] => (.broken .endOfValue .endOfValue, [])
  | w :: word, c :: text =>
    if c = w then lexWord token word text
    else (.broken .expectedWord .expectedWord, [])

/-- The token that begins with a character. -/
def lexToken (c : Char) (text : List Char) : Token × List Char :=
  match c with
  | '[' => (.openList, text)
  | ']' => (.closeList, text)
  | '\x7b' => (.openObject, text)
  | '\x7d' => (.closeObject, text)
  | ',' => (.comma, text)
  | ':' => (.colon, text)
  | '"' => lexString text
  | 'n' => lexWord .null "ull".toList text
  | 't' => lexWord (.bool true) "rue".toList text
  | 'f' => lexWord (.bool false) "alse".toList text
  | '-' => lexNumber true text
  | c =>
    if c.isDigit then lexNumber false (c :: text)
    else (.broken .expectedValue .expectedValue, [])

/-- The characters that may stand between tokens. -/
def isSpace (c : Char) : Bool := c = ' ' || c = '\t' || c = '\n' || c = '\r'

/-- The tokens of a text, at most `count` of them. -/
def lexUpTo : (count : Nat) → (text : List Char) → List Token
  | 0, _ => []
  | count + 1, text =>
    match text.dropWhile isSpace with
    | [] => []
    | c :: text =>
      let (token, rest) := lexToken c text
      token :: lexUpTo count rest

/-- The tokens of a text, each of which takes at least one character. -/
def ofText (text : List Char) : List Token := lexUpTo text.length text

end Token

end Flowgraph
