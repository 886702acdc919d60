import Flowgraph.Json.Basic
import Flowgraph.Number.Layout

/-!
# Writing JSON

A value has two written forms. The compact one has no blank outside strings;
the pretty one puts every item and member on a line of its own, two more spaces
in for each container around it. An infinite number has no JSON form and is
written as `null`.
-/

namespace Flowgraph

namespace Number

/-- A number as text. -/
def write : Number → List Char
  | integer n => (if n < 0 then ['-'] else []) ++ Nat.toDigits 10 n.natAbs
  | double x => if x.isFinite then Layout.double.write x else "null".toList
  | single x => if x.isFinite then Layout.single.write x else "null".toList

end Number

namespace Json

/-- One character of a string: quotes, backslashes and control characters are
escaped, everything else stands for itself. -/
def escape (c : Char) : List Char :=
  match c with
  | '"' => ['\\', '"']
  | '\\' => ['\\', '\\']
  | '\x08' => ['\\', 'b']
  | '\x0c' => ['\\', 'f']
  | '\n' => ['\\', 'n']
  | '\r' => ['\\', 'r']
  | '\t' => ['\\', 't']
  | c =>
    if c.toNat < 0x20 then
      ['\\', 'u', '0', '0',
        Nat.digitChar (c.toNat / 16), Nat.digitChar (c.toNat % 16)]
    else [c]

/-- A string with its quotes. -/
def writeString (s : String) : List Char :=
  '"' :: s.toList.flatMap escape ++ ['"']

/-- A truth value. -/
def writeBool (b : Bool) : List Char :=
  if b then "true".toList else "false".toList

/-- An item and what stands between it and the next one. -/
def joinWith (separator : List Char) : List (List Char) → List Char
  | [] => []
  | [part] => part
  | part :: rest => part ++ separator ++ joinWith separator rest

mutual

/-- The compact form. -/
def writeCompact : Json → List Char
  | .null => "null".toList
  | .bool b => writeBool b
  | .number n => n.write
  | .string s => writeString s
  | .array items => '[' :: joinWith [','] (compactItems items) ++ [']']
  | .object members =>
    '\x7b' :: joinWith [','] (compactMembers members) ++ ['\x7d']

/-- The compact forms of items. -/
def compactItems : List Json → List (List Char)
  | [] => []
  | j :: rest => j.writeCompact :: compactItems rest

/-- The compact forms of members. -/
def compactMembers : List (String × Json) → List (List Char)
  | [] => []
  | (k, j) :: rest =>
    (writeString k ++ ':' :: j.writeCompact) :: compactMembers rest

end

/-- A new line, `depth` containers deep. -/
def newLine (depth : Nat) : List Char := '\n' :: List.replicate (2 * depth) ' '

/-- Lines between an opening and a closing bracket. -/
def block (opening closing : Char) (depth : Nat) (lines : List (List Char)) :
    List Char :=
  if lines.isEmpty then [opening, closing]
  else
    opening :: newLine (depth + 1) ++
      joinWith (',' :: newLine (depth + 1)) lines ++ newLine depth ++ [closing]

mutual

/-- The pretty form, `depth` containers deep. -/
def writePretty (depth : Nat) : Json → List Char
  | .null => "null".toList
  | .bool b => writeBool b
  | .number n => n.write
  | .string s => writeString s
  | .array items => block '[' ']' depth (prettyItems (depth + 1) items)
  | .object members =>
    block '\x7b' '\x7d' depth (prettyMembers (depth + 1) members)

/-- The pretty forms of items. -/
def prettyItems (depth : Nat) : List Json → List (List Char)
  | [] => []
  | j :: rest => j.writePretty depth :: prettyItems depth rest

/-- The pretty forms of members. -/
def prettyMembers (depth : Nat) : List (String × Json) → List (List Char)
  | [] => []
  | (k, j) :: rest =>
    (writeString k ++ ':' :: ' ' :: j.writePretty depth) ::
      prettyMembers depth rest

end

/-- A value as compact text. -/
def compact (j : Json) : String := String.ofList j.writeCompact

/-- A value as pretty text. -/
def pretty (j : Json) : String := String.ofList (j.writePretty 0)

end Json

end Flowgraph
