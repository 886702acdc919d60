import Flowgraph.Json.Read

/-!
# Values of a type from free JSON

The parts of a tagged value are looked at only after all of it was read, when
its tag is known. What is left to find then are mismatches. A few rules differ
from those for a text: a tag may be the number of its variant, a variant
without content may be given an empty object, and a list that is too long has
a wrong length.
-/

namespace Flowgraph

namespace Json

/-- What a value is found to be. -/
def found : Json → Found
  | .null => .null
  | .bool b => .bool b
  | .number (.integer n) => .integer n
  | .number (.double x) => .double x
  | .number (.single x) => .double (x.convert .double)
  | .string s => .string s
  | .array _ => .sequence
  | .object _ => .map

/-- Refuses a value where something else is wanted. -/
def refuse (wanted : String) (j : Json) : Except Problem α :=
  .error (.mismatch (.wrongType j.found wanted))

end Json

/-- Makes a value of a type of free JSON. -/
abbrev Content (α : Type) := Json → Except Problem α

namespace Content

/-! ## Scalars -/

/-- A string. -/
def string : Content String
  | .string s => .ok s
  | j => j.refuse "a string"

/-- A whole number of `bits` bits without a sign. -/
def unsigned (bits : Nat) : Content (BitVec bits)
  | .number (.integer n) =>
    let word := BitVec.ofInt bits n
    if (word.toNat : Int) = n then .ok word
    else .error (.mismatch (.wrongValue (.integer n) s!"u{bits}"))
  | j => j.refuse s!"u{bits}"

/-- A 32-bit floating-point number: a whole number is rounded once, a
floating-point one a second time. -/
def single : Content Single
  | .number (.integer n) => .ok (.ofInt .single n)
  | .number (.double x) => .ok (x.convert .single)
  | .number (.single x) => .ok x
  | j => j.refuse "f32"

/-- Nothing for `null`, else what `read` makes of the value. -/
def optional (read : Content α) : Content (Option α)
  | .null => .ok none
  | j => some <$> read j

/-! ## Records -/

/-- Reads members into a record, known ones by their fields; `names` are those
of the fields that are read already. -/
def members (fields : List (Field Json α)) :
    List (String × Json) → (names : List String) → α → Except Problem α
  | [], names, record =>
    match Field.missing? fields names with
    | some name => .error (.mismatch (.missingField name))
    | none => .ok record
  | (name, j) :: rest, names, record =>
    match Field.find? fields name with
    | none => members fields rest names record
    | some field => do
      if name ∈ names then throw (.mismatch (.duplicateField name))
      let record ← field.read j record
      members fields rest (name :: names) record

/-- Reads items into a record by the fields in their order, of `count` fields in
all, each of which may be left out at the end. -/
def items (count : Nat) : List (Field Json α) → List Json → α → Except Problem α
  | _, [], record => .ok record
  | [], rest, _ =>
    .error (.mismatch (.wrongLength (count + rest.length)
      s!"{elements count} in sequence"))
  | field :: fields, j :: rest, record => do
    let record ← field.read j record
    items count fields rest record

/-- A record, written as an object or as the list of its fields. The record
starts as `start`, which holds what fields are when they are left out. -/
def record (wanted : String) (fields : List (Field Json α)) (start : α) :
    Content α
  | .object ms => members fields ms [] start
  | .array js => items fields.length fields js start
  | j => j.refuse wanted

/-! ## Variants -/

/-- The variant a tag names, or the one that it numbers. -/
def variantName (variants : Variants α) : Content α
  | .string s => variantNamed variants s
  | .number (.integer n) =>
    if n < 0 then (Json.int n).refuse "variant identifier"
    else match variants[n.toNat]? with
      | some (_, value) => .ok value
      | none =>
        .error (.mismatch (.wrongValue (.integer n)
          s!"variant index 0 <= i < {variants.length}"))
  | j => j.refuse "variant identifier"

/-- The content of a variant that has none. -/
def nothing : Content Unit
  | .null => .ok ()
  | .object [] => .ok ()
  | j => j.refuse "unit"

/-- One of several variants without content. -/
def choice (variants : Variants α) : Content α
  | .string s => variantNamed variants s
  | .object [(name, j)] => do
    let value ← variantNamed variants name
    nothing j
    return value
  | .object _ => .error (.mismatch (.wrongValue .map "map with a single key"))
  | j => j.refuse "string or map"

/-! ## Tagged values -/

/-- Members up to the end: the tag and the others. -/
def taggedMembers (tag : String) (variants : Variants α) (found : Option α)
    (content : List (String × Json)) :
    List (String × Json) → Except Problem (α × Json)
  | [] =>
    match found with
    | some choice => .ok (choice, .object content.reverse)
    | none => .error (.mismatch (.missingField tag))
  | (name, j) :: rest =>
    if name = tag then do
      if found.isSome then throw (.mismatch (.duplicateField tag))
      let choice ← variantName variants j
      taggedMembers tag variants (some choice) content rest
    else taggedMembers tag variants found ((name, j) :: content) rest

/-- A value with a tag that says of which variant it is: the variant and the
rest. -/
def tagged (tag wanted : String) (variants : Variants α) : Content (α × Json)
  | .object ms => taggedMembers tag variants none [] ms
  | .array [] => .error (.mismatch (.missingField tag))
  | .array (j :: rest) => do
    let choice ← variantName variants j
    return (choice, .array rest)
  | j => j.refuse wanted

/-- The content of a tagged variant that has no fields: any object, or a list
with nothing behind the tag. -/
def noFields : Content Unit
  | .array js => items 0 ([] : List (Field Json Unit)) js ()
  | _ => .ok ()

end Content

end Flowgraph
