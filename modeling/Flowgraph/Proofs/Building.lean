import Flowgraph.Json.Tree
import Flowgraph.Proofs.Tokens

/-!
# The tree of a written value

The tokens of a value are built into one tree, and then the innermost open list
or object goes on behind it. That is what `builds` says for any stack, so
that the parts of a list can be taken one after another; the stack only has to
leave room for the containers of the value.

So a text that a value was written to is read as `toTree` of the value: the
value itself, except that the numbers in it have been through their written
form.
-/

namespace Flowgraph

namespace Json

mutual

/-- What holds of a list or an object when it holds of its parts holds of every
value. -/
@[elab_as_elim]
theorem induction {P : Json → Prop} (null : P .null)
    (bool : ∀ b, P (.bool b)) (number : ∀ n, P (.number n))
    (string : ∀ s, P (.string s))
    (array : ∀ items, (∀ j ∈ items, P j) → P (.array items))
    (object : ∀ members, (∀ m ∈ members, P m.2) → P (.object members)) :
    ∀ j, P j
  | .null => null
  | .bool b => bool b
  | .number n => number n
  | .string s => string s
  | .array items =>
    array items (items_induction null bool number string array object items)
  | .object members =>
    object members
      (members_induction null bool number string array object members)

theorem items_induction {P : Json → Prop} (null : P .null)
    (bool : ∀ b, P (.bool b)) (number : ∀ n, P (.number n))
    (string : ∀ s, P (.string s))
    (array : ∀ items, (∀ j ∈ items, P j) → P (.array items))
    (object : ∀ members, (∀ m ∈ members, P m.2) → P (.object members)) :
    ∀ items : List Json, ∀ j ∈ items, P j
  | [] => nofun
  | j :: rest => List.forall_mem_cons.mpr
    ⟨induction null bool number string array object j,
      items_induction null bool number string array object rest⟩

theorem members_induction {P : Json → Prop} (null : P .null)
    (bool : ∀ b, P (.bool b)) (number : ∀ n, P (.number n))
    (string : ∀ s, P (.string s))
    (array : ∀ items, (∀ j ∈ items, P j) → P (.array items))
    (object : ∀ members, (∀ m ∈ members, P m.2) → P (.object members)) :
    ∀ members : List (String × Json), ∀ m ∈ members, P m.2
  | [] => nofun
  | (_, j) :: rest => List.forall_mem_cons.mpr
    ⟨induction null bool number string array object j,
      members_induction null bool number string array object rest⟩

end

mutual

/-- How many containers are inside one another at the deepest place. -/
def depth : Json → Nat
  | .array items => itemsDepth items + 1
  | .object members => membersDepth members + 1
  | _ => 0

/-- The depth of the deepest item. -/
def itemsDepth : List Json → Nat
  | [] => 0
  | j :: rest => max j.depth (itemsDepth rest)

/-- The depth of the deepest member. -/
def membersDepth : List (String × Json) → Nat
  | [] => 0
  | (_, j) :: rest => max j.depth (membersDepth rest)

end

/-- What the written form of a number is read as. -/
def numberTree (n : Number) : Tree :=
  match n.numeral? with
  | some m => .number m.value
  | none => .null

mutual

/-- What the written form of a value is read as. -/
def toTree : Json → Tree
  | .null => .null
  | .bool b => .bool b
  | .number n => numberTree n
  | .string s => .string (.ok s)
  | .array items => .list (itemTrees items) .closed
  | .object members => .object (memberTrees members) .closed

/-- What the written forms of items are read as. -/
def itemTrees : List Json → List Tree
  | [] => []
  | j :: rest => j.toTree :: itemTrees rest

/-- What the written forms of members are read as. -/
def memberTrees : List (String × Json) → List (Key × Tree)
  | [] => []
  | (k, j) :: rest => (.ok k, j.toTree) :: memberTrees rest

end

end Json

namespace Tree

variable {stack : List Frame}

/-- Takes the tokens behind a step. -/
def follow : Step → List Token → Tree × List Token
  | .next state stack, rest => build rest state stack
  | .whole tree, rest => (tree, rest)
  | .cut tree, _ => (tree, [])

theorem build_cons (token : Token) (rest : List Token) (state : State)
    (stack : List Frame) :
    build (token :: rest) state stack =
      follow (step token stack state) rest := by
  rw [build]
  cases step token stack state <;> rfl

theorem build_value (token : Token) (rest : List Token) (stack : List Frame) :
    build (token :: rest) .value stack = follow (begin token stack) rest :=
  build_cons token rest .value stack

/-- The first token of a value begins an item, whether it is the first one or
not. -/
theorem build_item (j : Json) (rest : List Token) (first : Bool)
    (items : List Tree) (stack : List Frame) :
    build (j.tokens ++ rest) (.item first items) stack =
      build (j.tokens ++ rest) .value (.list items :: stack) := by
  cases j with
  | number n =>
      simp only [Json.tokens, Number.token, List.cons_append, build_cons]
      cases n.numeral? <;> rfl
  | _ =>
      simp only [Json.tokens, List.cons_append, build_cons]
      rfl

theorem build_number (n : Number) (rest : List Token) :
    build (n.token :: rest) .value stack =
      follow (complete (Json.numberTree n) stack) rest := by
  rw [build_value, Number.token, Json.numberTree]
  cases n.numeral? <;> rfl

theorem build_closeList {items : List Tree} (rest : List Token)
    (h : stack.length < depthLimit) :
    build (.closeList :: rest) (.itemEnd items) stack =
      follow (complete (.list items.reverse .closed) stack) rest := by
  rw [build_cons, step, listOf, nested, if_pos h]

theorem build_closeObject {members : List (Key × Tree)} (rest : List Token)
    (h : stack.length < depthLimit) :
    build (.closeObject :: rest) (.memberEnd members) stack =
      follow (complete (.object members.reverse .closed) stack) rest := by
  rw [build_cons, step, objectOf, nested, if_pos h]

/-- The value is read as its tree, and what is around it goes on. -/
def Builds (j : Json) : Prop :=
  ∀ (stack : List Frame) (rest : List Token),
    stack.length + j.depth ≤ depthLimit →
      build (j.tokens ++ rest) .value stack =
        follow (complete j.toTree stack) rest

theorem build_items (rest : List Token) (j : Json) (items : List Json)
    (first : Bool) (done : List Tree) (h : ∀ i ∈ j :: items, Builds i)
    (hroom : stack.length + Json.itemsDepth (j :: items) < depthLimit) :
    build (joinTokens (Json.itemTokens (j :: items)) ++ .closeList :: rest)
        (.item first done) stack =
      follow (complete
        (.list (done.reverse ++ Json.itemTrees (j :: items)) .closed) stack)
        rest := by
  induction items generalizing j first done with
  | nil =>
      simp only [Json.itemsDepth] at hroom
      have hj := h j List.mem_cons_self (.list done :: stack)
        (.closeList :: rest) (by rw [List.length_cons]; omega)
      simp only [Json.itemTokens, joinTokens, Json.itemTrees]
      rw [build_item, hj]
      show build _ (.itemEnd (j.toTree :: done)) stack = _
      rw [build_closeList rest (by omega), List.reverse_cons]
  | cons next items ih =>
      rw [List.forall_mem_cons] at h
      rw [Json.itemsDepth] at hroom
      have hj := h.1 (.list done :: stack)
        (.comma :: (joinTokens (Json.itemTokens (next :: items)) ++
          .closeList :: rest)) (by rw [List.length_cons]; omega)
      have hitems := ih next false (j.toTree :: done) h.2 (by omega)
      rw [Json.itemTokens, Json.itemTokens, joinTokens, ← Json.itemTokens,
        List.append_assoc, List.cons_append, build_item, hj]
      · show build _ (.item false (j.toTree :: done)) stack = _
        rw [hitems, List.reverse_cons, List.append_assoc]
        rfl
      · exact List.cons_ne_nil _ _

theorem build_members (rest : List Token) (k : String) (j : Json)
    (members : List (String × Json)) (first : Bool) (done : List (Key × Tree))
    (h : ∀ m ∈ (k, j) :: members, Builds m.2)
    (hroom :
      stack.length + Json.membersDepth ((k, j) :: members) < depthLimit) :
    build (joinTokens (Json.memberTokens ((k, j) :: members)) ++
        .closeObject :: rest) (.key first done) stack =
      follow (complete
        (.object (done.reverse ++ Json.memberTrees ((k, j) :: members))
          .closed) stack) rest := by
  induction members generalizing k j first done with
  | nil =>
      simp only [Json.membersDepth] at hroom
      have hvalue : Builds j := h _ List.mem_cons_self
      have hj := hvalue (.entry (.ok k) done :: stack)
        (.closeObject :: rest) (by rw [List.length_cons]; omega)
      simp only [Json.memberTokens, joinTokens, Json.memberTrees,
        List.cons_append]
      show build _ .value (.entry (.ok k) done :: stack) = _
      rw [hj]
      show build _ (.memberEnd ((.ok k, j.toTree) :: done)) stack = _
      rw [build_closeObject rest (by omega), List.reverse_cons]
  | cons next members ih =>
      obtain ⟨l, i⟩ := next
      rw [List.forall_mem_cons] at h
      rw [Json.membersDepth] at hroom
      have hvalue : Builds j := h.1
      have hj := hvalue (.entry (.ok k) done :: stack)
        (.comma :: (joinTokens (Json.memberTokens ((l, i) :: members)) ++
          .closeObject :: rest)) (by rw [List.length_cons]; omega)
      have hmembers := ih l i false ((.ok k, j.toTree) :: done) h.2 (by omega)
      rw [Json.memberTokens, Json.memberTokens, joinTokens, ← Json.memberTokens,
        List.append_assoc, List.cons_append, List.cons_append, List.cons_append]
      · show build _ .value (.entry (.ok k) done :: stack) = _
        rw [hj]
        show build _ (.key false ((.ok k, j.toTree) :: done)) stack = _
        rw [hmembers, List.reverse_cons, List.append_assoc]
        rfl
      · exact List.cons_ne_nil _ _

theorem builds (j : Json) : Builds j := by
  induction j using Json.induction with
  | null | bool | string => exact fun _ _ _ => build_value ..
  | number n => exact fun _ rest _ => build_number n rest
  | array items ih =>
      intro stack rest h
      rw [Json.depth] at h
      rw [Json.tokens, List.append_assoc, List.cons_append, build_value]
      cases items with
      | nil =>
          -- Right behind its opening bracket a list ends as it does elsewhere.
          exact @build_closeList _ [] rest (by omega)
      | cons j items =>
          exact build_items rest j items true [] ih (by omega)
  | object members ih =>
      intro stack rest h
      rw [Json.depth] at h
      rw [Json.tokens, List.append_assoc, List.cons_append, build_value]
      cases members with
      | nil => exact @build_closeObject _ [] rest (by omega)
      | cons m members =>
          obtain ⟨k, j⟩ := m
          exact build_members rest k j members true [] ih (by omega)

theorem ofText_of_tokens {j : Json} {text : List Char}
    (htokens : Token.ofText text = j.tokens) (h : j.depth ≤ depthLimit) :
    ofText text = (j.toTree, []) := by
  have hbuild := builds j [] [] (by simpa using h)
  rw [List.append_nil] at hbuild
  rw [ofText, htokens, hbuild]
  rfl

/-- The pretty text of a value is read as the tree of the value. -/
theorem ofText_pretty {j : Json} (h : j.depth ≤ depthLimit) :
    ofText j.pretty.toList = (j.toTree, []) :=
  ofText_of_tokens (Flowgraph.ofText_pretty j) h

/-- So is the compact one. -/
theorem ofText_compact {j : Json} (h : j.depth ≤ depthLimit) :
    ofText j.compact.toList = (j.toTree, []) :=
  ofText_of_tokens (Flowgraph.ofText_compact j) h

end Tree

end Flowgraph
