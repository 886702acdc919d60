import Flowgraph.Json.Token

/-!
# What was read

A text is turned into a tree before anything is made of it. The tree keeps what
stood in the text up to the first place where it stops being JSON, and there it
says what is wrong. Whoever makes a value of the tree walks it from left to
right and so meets the faults of the text and the faults of its own in the
order in which they stand.

The tree does not know which of its parts will be wanted. Faults that depend on
that are kept in both forms, for a part that is read and for one that is passed
over.
-/

namespace Flowgraph

/-- How a list or an object ends. -/
inductive Close where
  /-- With its closing bracket. -/
  | closed
  /-- The text ends where a comma or the bracket should stand. -/
  | ended
  /-- Something else stands where a comma or the bracket should stand. -/
  | stray
  /-- With a comma right before its bracket. -/
  | commaClosed
  /-- The text ends behind a comma. -/
  | commaEnded
  deriving DecidableEq

/-- A place where a value should stand and none can be read. -/
inductive Gap where
  /-- The text ends. -/
  | ended
  /-- The text goes on with no value. -/
  | broken (read skip : Malformed)
  /-- A string begins that has no end. -/
  | brokenString (read skip : Malformed)
  /-- The colon in front is missing. -/
  | noColon (fault : Malformed)

/-- The value that stands at a place of a text, as far as it could be read. A
member whose name cannot be read is the last of its object. -/
inductive Tree where
  | null
  | bool (value : Bool)
  | number (value : Except Malformed Number)
  | string (value : Except Malformed String)
  | list (items : List Tree) (close : Close)
  | object (members : List (Except Malformed String × Tree)) (close : Close)
  /-- A list or an object inside too many others. -/
  | deep (tree : Tree)
  | gap (gap : Gap)

/-- The name of a member as it was read. -/
abbrev Key := Except Malformed String

namespace Gap

/-- The fault for a reader of the value. -/
def read : Gap → Malformed
  | ended => .endOfValue
  | broken fault _ => fault
  | brokenString fault _ => fault
  | noColon fault => fault

/-- The fault for a reader that passes over the value. -/
def skip : Gap → Malformed
  | ended => .endOfValue
  | broken _ fault => fault
  | brokenString _ fault => fault
  | noColon fault => fault

end Gap

namespace Tree

/-- How many lists and objects may be inside one another. -/
def depthLimit : Nat := 127

/-! ## Building

Tokens are taken one after another. The lists and objects that are open lie on
a stack, the innermost first, their parts in reverse; what the innermost one
expects next is the state. -/

/-- A list or an object around the value that is being read. -/
inductive Frame where
  | list (items : List Tree)
  | entry (key : Key) (members : List (Key × Tree))

/-- What may come next: a value, an item or the first name after a bracket or
a comma, a colon, or the end of an item or a member. -/
inductive State where
  | value
  | item (first : Bool) (items : List Tree)
  | itemEnd (items : List Tree)
  | key (first : Bool) (members : List (Key × Tree))
  | colon (key : Key) (members : List (Key × Tree))
  | memberEnd (members : List (Key × Tree))

/-- What a token leads to. -/
inductive Step where
  | next (state : State) (stack : List Frame)
  /-- The outermost value is complete. -/
  | whole (tree : Tree)
  /-- Nothing after the token can be read. -/
  | cut (tree : Tree)

/-- A list or an object inside `stack`. -/
def nested (stack : List Frame) (tree : Tree) : Tree :=
  if stack.length < depthLimit then tree else .deep tree

/-- A list inside `stack`, its items in reverse. -/
def listOf (stack : List Frame) (items : List Tree) (close : Close) : Tree :=
  nested stack (.list items.reverse close)

/-- An object inside `stack`, its members in reverse. -/
def objectOf (stack : List Frame) (members : List (Key × Tree))
    (close : Close) : Tree :=
  nested stack (.object members.reverse close)

/-- The outermost value when nothing comes after `tree`. -/
def unwind (tree : Tree) : List Frame → Tree
  | [] => tree
  | .list items :: stack => unwind (listOf stack (tree :: items) .stray) stack
  | .entry key members :: stack =>
    unwind (objectOf stack ((key, tree) :: members) .stray) stack

/-- Goes on behind a complete value. -/
def complete (tree : Tree) : List Frame → Step
  | [] => .whole tree
  | .list items :: stack => .next (.itemEnd (tree :: items)) stack
  | .entry key members :: stack =>
    .next (.memberEnd ((key, tree) :: members)) stack

/-- Ends at a place where no value can be read. -/
def cutAt (gap : Gap) (stack : List Frame) : Step :=
  .cut (unwind (.gap gap) stack)

/-- Begins a value. -/
def begin (token : Token) (stack : List Frame) : Step :=
  match token with
  | .openList => .next (.item true []) stack
  | .openObject => .next (.key true []) stack
  | .null => complete .null stack
  | .bool b => complete (.bool b) stack
  | .number n => complete (.number n) stack
  | .string s => complete (.string s) stack
  | .brokenString read skip => cutAt (.brokenString read skip) stack
  | .broken read skip => cutAt (.broken read skip) stack
  | .closeList | .closeObject | .comma | .colon =>
    cutAt (.broken .expectedValue .expectedValue) stack

/-- Takes one token. -/
def step (token : Token) (stack : List Frame) : State → Step
  | .value => begin token stack
  | .item first items =>
    match token, first with
    | .closeList, true => complete (listOf stack items .closed) stack
    | .closeList, false => .cut (unwind (listOf stack items .commaClosed) stack)
    | token, _ => begin token (.list items :: stack)
  | .itemEnd items =>
    match token with
    | .closeList => complete (listOf stack items .closed) stack
    | .comma => .next (.item false items) stack
    | _ => .cut (unwind (listOf stack items .stray) stack)
  | .key first members =>
    match token, first with
    | .string key, _ => .next (.colon key members) stack
    | .closeObject, true => complete (objectOf stack members .closed) stack
    | .closeObject, false =>
      .cut (unwind (objectOf stack members .commaClosed) stack)
    | .brokenString read skip, _ =>
      let frame := .entry (.error read) members
      cutAt (.brokenString read skip) (frame :: stack)
    | _, _ =>
      let frame := .entry (.error .keyNotString) members
      cutAt (.broken .keyNotString .keyNotString) (frame :: stack)
  | .colon key members =>
    match token with
    | .colon => .next .value (.entry key members :: stack)
    | _ =>
      let frame := .entry key members
      cutAt (.noColon .expectedColon) (frame :: stack)
  | .memberEnd members =>
    match token with
    | .closeObject => complete (objectOf stack members .closed) stack
    | .comma => .next (.key false members) stack
    | _ => .cut (unwind (objectOf stack members .stray) stack)

/-- The outermost value when the text ends. -/
def stop (stack : List Frame) : State → Tree
  | .value => unwind (.gap .ended) stack
  | .item first items =>
    let close := if first then .ended else .commaEnded
    unwind (listOf stack items close) stack
  | .itemEnd items => unwind (listOf stack items .ended) stack
  | .key first members =>
    let close := if first then .ended else .commaEnded
    unwind (objectOf stack members close) stack
  | .colon key members =>
    unwind (.gap (.noColon .endOfObject)) (.entry key members :: stack)
  | .memberEnd members => unwind (objectOf stack members .ended) stack

/-- Takes tokens until the outermost value is complete: the value and the tokens
behind it. -/
def build : List Token → State → List Frame → Tree × List Token
  | [], state, stack => (stop stack state, [])
  | token :: rest, state, stack =>
    match step token stack state with
    | .next state stack => build rest state stack
    | .whole tree => (tree, rest)
    | .cut tree => (tree, [])

/-- The value a text begins with, and the tokens behind it. -/
def ofText (text : List Char) : Tree × List Token :=
  build (Token.ofText text) .value []

end Tree

end Flowgraph
