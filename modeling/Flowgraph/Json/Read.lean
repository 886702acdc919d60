import Flowgraph.Json.Problem
import Flowgraph.Json.Tree

/-!
# Values of a type from a text

A reader makes a value of the tree of a text. It walks the tree from left to
right and gives the first problem it meets, one of the text or one of its own;
what comes later is not looked at. The members of an object may come in any
order and unknown ones are passed over, but a known one may come only once, and
whether one is missing is known only at the end of the object.
-/

namespace Flowgraph

/-- Makes a value of a type of what stands at a place of a text. -/
abbrev Reader (α : Type) := Tree → Except Problem α

namespace Close

/-- The fault of an ending for a reader of the items. -/
def readList : Close → Except Malformed Unit
  | closed => .ok ()
  | ended => .error .endOfList
  | stray => .error .expectedItemEnd
  | commaClosed => .error .trailingComma
  | commaEnded => .error .endOfValue

/-- The fault of an ending for a reader of the members. -/
def readObject : Close → Except Malformed Unit
  | closed => .ok ()
  | ended => .error .endOfObject
  | stray => .error .expectedMemberEnd
  | commaClosed => .error .trailingComma
  | commaEnded => .error .endOfValue

/-- The fault of an ending for a reader that passes over the list. -/
def skipList : Close → Except Malformed Unit
  | closed => .ok ()
  | ended => .error .endOfList
  | stray => .error .expectedItemEnd
  | commaClosed => .error .expectedValue
  | commaEnded => .error .endOfValue

/-- The fault of an ending for a reader that passes over the object. -/
def skipObject : Close → Except Malformed Unit
  | closed => .ok ()
  | ended => .error .endOfObject
  | stray => .error .expectedMemberEnd
  | commaClosed => .error .keyNotString
  | commaEnded => .error .endOfObject

/-- The fault of an ending for a reader that wants no further item. -/
def finishList : Close → Except Malformed Unit
  | closed => .ok ()
  | ended => .error .endOfList
  | stray => .error .trailingCharacters
  | commaClosed => .error .trailingComma
  | commaEnded => .error .trailingCharacters

end Close

/-- A step that can only find malformed text, as part of one that can find any
problem. -/
def Problem.lift : Except Malformed α → Except Problem α
  | .ok a => .ok a
  | .error fault => .error (.malformed fault)

namespace Tree

/-! ## Passing over a value -/

mutual

/-- Passes over a value, which has to be JSON but may hold any strings and
numbers, and at any depth. -/
def skip : Tree → Except Malformed Unit
  | .null | .bool _ | .number _ | .string _ => .ok ()
  | .list items close => do skipItems items; close.skipList
  | .object members close => do skipMembers members; close.skipObject
  | .deep tree => tree.skip
  | .gap hole => .error hole.skip

/-- Passes over items. -/
def skipItems : List Tree → Except Malformed Unit
  | [] => .ok ()
  | tree :: rest => do tree.skip; skipItems rest

/-- Passes over members. -/
def skipMembers : List (Key × Tree) → Except Malformed Unit
  | [] => .ok ()
  | (_, tree) :: rest => do tree.skip; skipMembers rest

end

/-! ## Free values -/

mutual

/-- The value as free JSON, its members as they come. -/
def json : Tree → Except Malformed Json
  | .null => .ok .null
  | .bool b => .ok (.bool b)
  | .number n => n.map Json.number
  | .string s => s.map Json.string
  | .list items close => do
    let items ← jsonItems items
    close.readList
    return .array items
  | .object members close => do
    let members ← jsonMembers members
    close.readObject
    return .object members
  | .deep _ => .error .tooDeep
  | .gap hole => .error hole.read

/-- The items of an array. -/
def jsonItems : List Tree → Except Malformed (List Json)
  | [] => .ok []
  | tree :: rest => do
    let item ← tree.json
    return item :: (← jsonItems rest)

/-- The members of an object. -/
def jsonMembers : List (Key × Tree) → Except Malformed (List (String × Json))
  | [] => .ok []
  | (key, tree) :: rest => do
    let name ← key
    let value ← tree.json
    return (name, value) :: (← jsonMembers rest)

end

/-! ## Refusing a value -/

/-- What a value is found to be. A string or a number is read as a whole first,
a list or an object is not looked into. -/
def found : Tree → Except Malformed Found
  | .null => .ok .null
  | .bool b => .ok (.bool b)
  | .number n => n.map fun
    | .integer n => .integer n
    | .double x => .double x
    | .single x => .double (x.convert .double)
  | .string s => s.map .string
  | .list .. => .ok .sequence
  | .object .. => .ok .map
  | .deep tree => tree.found
  | .gap hole => .error hole.read

/-- Refuses a value where something else is wanted. -/
def refuse (wanted : String) (tree : Tree) : Except Problem α := do
  let found ← Problem.lift tree.found
  throw (.mismatch (.wrongType found wanted))

end Tree

namespace Reader

/-! ## Scalars -/

/-- A string. -/
def string : Reader String
  | .string s => Problem.lift s
  | tree => tree.refuse "a string"

/-- A truth value. -/
def bool : Reader Bool
  | .bool b => .ok b
  | tree => tree.refuse "a boolean"

/-- A whole number of `bits` bits without a sign. -/
def unsigned (bits : Nat) : Reader (BitVec bits)
  | .number (.ok (.integer n)) =>
    let word := BitVec.ofInt bits n
    if (word.toNat : Int) = n then .ok word
    else .error (.mismatch (.wrongValue (.integer n) s!"u{bits}"))
  | tree => tree.refuse s!"u{bits}"

/-- A moment. -/
def moment : Reader Moment
  | .string s => do
    let text ← Problem.lift s
    match Moment.read text.toList with
    | .ok m => return m
    | .error fault => throw (.mismatch (.time fault))
  | tree => tree.refuse "an RFC 3339 formatted date and time string"

/-- Free JSON in canonical form. -/
def json : Reader Json := fun tree =>
  Problem.lift (tree.json.map Json.canonical)

/-- Nothing for `null`, else what `read` makes of the value. -/
def optional (read : Reader α) : Reader (Option α)
  | .null => .ok none
  | tree => some <$> read tree

/-! ## Lists -/

/-- Every item by the same reader. -/
def list (read : Reader α) : Reader (List α)
  | .list items close => do
    let values ← items.mapM read
    Problem.lift close.readList
    return values
  | .deep _ => .error (.malformed .tooDeep)
  | tree => tree.refuse "a sequence"

end Reader

/-! ## Records -/

/-- When a field of a record may be left out: never, in an object, or in an
object and at the end of a list. -/
inductive Presence where
  | required
  | optional
  | defaulted
  deriving DecidableEq

/-- A field of a record of type `α`, read from a `τ`: what is read is put into
the record as it is so far. -/
structure Field (τ α : Type) where
  name : String
  presence : Presence
  read : τ → α → Except Problem α

namespace Field

/-- A field given by the reader of its value and by where the value goes. -/
def of (name : String) (presence : Presence) (read : τ → Except Problem β)
    (put : β → α → α) : Field τ α :=
  ⟨name, presence, fun tree record => return put (← read tree) record⟩

/-- The field of a name. -/
def find? (fields : List (Field τ α)) (name : String) : Option (Field τ α) :=
  fields.find? fun field => field.name = name

/-- The first required field that is not among the names. -/
def missing? (fields : List (Field τ α)) (names : List String) :
    Option String :=
  let isMissing (field : Field τ α) : Bool :=
    field.presence = .required ∧ field.name ∉ names
  (fields.find? isMissing).map (·.name)

end Field

/-- How `n` elements are spoken of. -/
def elements (n : Nat) : String :=
  if n = 1 then "1 element" else s!"{n} elements"

namespace Reader

/-- Reads members into a record, known ones by their fields; `names` are those
of the fields that are read already. -/
def members (fields : List (Field Tree α)) :
    List (Key × Tree) → Close → (names : List String) → α → Except Problem α
  | [], close, names, record => do
    Problem.lift close.readObject
    match Field.missing? fields names with
    | some name => throw (.mismatch (.missingField name))
    | none => return record
  | (key, tree) :: rest, close, names, record => do
    let name ← Problem.lift key
    match Field.find? fields name with
    | none =>
      Problem.lift tree.skip
      members fields rest close names record
    | some field =>
      if name ∈ names then throw (.mismatch (.duplicateField name))
      let record ← field.read tree record
      members fields rest close (name :: names) record

/-- Reads items into a record by the fields in their order; `index` items are
read already. -/
def items (wanted : String) (index : Nat) :
    List (Field Tree α) → List Tree → Close → α → Except Problem α
  | [], [], close, record => do
    Problem.lift close.finishList
    return record
  | [], _ :: _, _, _ => .error (.malformed .trailingCharacters)
  | field :: rest, [], close, record => do
    Problem.lift close.readList
    if field.presence = .defaulted then
      items wanted (index + 1) rest [] close record
    else throw (.mismatch (.wrongLength index wanted))
  | field :: rest, tree :: trees, close, record => do
    let record ← field.read tree record
    items wanted (index + 1) rest trees close record

/-- A record, written as an object or as the list of its fields. The record
starts as `start`, which holds what fields are when they are left out. -/
def record (wanted : String) (fields : List (Field Tree α)) (start : α) :
    Reader α
  | .object ms close => members fields ms close [] start
  | .list trees close =>
    let wanted := s!"{wanted} with {elements fields.length}"
    items wanted 0 fields trees close start
  | .deep _ => .error (.malformed .tooDeep)
  | tree => tree.refuse wanted

end Reader

/-! ## Variants -/

/-- Variants and their names, in the order in which they are numbered. -/
abbrev Variants (α : Type) := List (String × α)

/-- Values with their names, as variants. -/
def Variants.named (name : α → String) (all : List α) : Variants α :=
  all.map fun a => (name a, a)

/-- The variant of a name. -/
def variantNamed (variants : Variants α) (name : String) : Except Problem α :=
  match variants.find? fun v => v.1 = name with
  | some (_, value) => .ok value
  | none => .error (.mismatch (.unknownVariant name (variants.map (·.1))))

namespace Reader

/-- The name of a variant. -/
def variantName (variants : Variants α) : Reader α
  | .string s => do variantNamed variants (← Problem.lift s)
  | tree => tree.refuse "variant identifier"

/-- One of several variants: a name alone, or an object with the name as its
only member. Anything else is no value at all at such a place. -/
def variant (variants : Variants α) (bare : α → Except Problem β)
    (content : α → Reader β) : Reader β
  | .string s => do bare (← variantNamed variants (← Problem.lift s))
  | .gap (.brokenString read _) => .error (.malformed read)
  | .gap (.noColon fault) => .error (.malformed fault)
  | .gap .ended => .error (.malformed .endOfValue)
  | .object [] .ended => .error (.malformed .endOfValue)
  | .object ((key, tree) :: rest) close => do
    let choice ← variantNamed variants (← Problem.lift key)
    let value ← content choice tree
    match rest, close with
    | [], .closed => return value
    | [], .ended => throw (.malformed .endOfObject)
    | _, _ => throw (.malformed .expectedValue)
  | .deep _ => .error (.malformed .tooDeep)
  | _ => .error (.malformed .expectedValue)

/-- The content of a variant that has none. -/
def nothing : Reader Unit
  | .null => .ok ()
  | tree => tree.refuse "unit"

/-- One of several variants without content. -/
def choice (variants : Variants α) : Reader α :=
  variant variants .ok fun value tree => do
    nothing tree
    return value

/-! ## Tagged values -/

/-- Members up to the end: the tag, whose variant is looked up as soon as it is
met, and the others as free JSON. -/
def taggedMembers (tag : String) (variants : Variants α) (found : Option α)
    (content : List (String × Json)) :
    List (Key × Tree) → Close → Except Problem (α × Json)
  | [], close => do
    Problem.lift close.readObject
    match found with
    | some choice => return (choice, .object content.reverse)
    | none => throw (.mismatch (.missingField tag))
  | (key, tree) :: rest, close => do
    let name ← Problem.lift key
    if name = tag then
      if found.isSome then throw (.mismatch (.duplicateField tag))
      let choice ← variantName variants tree
      taggedMembers tag variants (some choice) content rest close
    else
      let value ← Problem.lift tree.json
      taggedMembers tag variants found ((name, value) :: content) rest close

/-- A value with a tag that says of which variant it is: the variant and the
rest as free JSON. The tag is a member, or the first item of a list. -/
def tagged (tag wanted : String) (variants : Variants α) : Reader (α × Json)
  | .object ms close => taggedMembers tag variants none [] ms close
  | .list [] close => do
    Problem.lift close.readList
    throw (.mismatch (.missingField tag))
  | .list (tree :: rest) close => do
    let choice ← variantName variants tree
    let items ← Problem.lift (Tree.jsonItems rest)
    Problem.lift close.readList
    return (choice, .array items)
  | .deep _ => .error (.malformed .tooDeep)
  | tree => tree.refuse wanted

/-! ## Whole texts -/

/-- The value of a text that holds nothing else. -/
def ofText (read : Reader α) (text : String) : Except Problem α :=
  let (tree, rest) := Tree.ofText text.toList
  do
    let value ← read tree
    if !rest.isEmpty then throw (.malformed .trailingCharacters)
    return value

end Reader

/-- The free JSON of a text, in canonical form. -/
def Json.ofText (text : String) : Except Problem Json := Reader.json.ofText text

end Flowgraph
