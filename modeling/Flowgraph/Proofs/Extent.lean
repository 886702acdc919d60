import Flowgraph.Proofs.Reading

/-!
# What a text can hold

A text does not hold every value. Its whole numbers fit into 64 bits, and what
is inside too many lists and objects is set apart and refused. Both are seen
while the tree is built: at every token the open lists and objects have room for
what is put into them. A value that is made of the tree has taken over both
bounds.
-/

namespace Flowgraph

theorem bind_eq_error {ε α β : Type} {x : Except ε α} {f : α → Except ε β}
    {e : ε} : x >>= f = .error e ↔
      x = .error e ∨ ∃ a, x = .ok a ∧ f a = .error e := by
  cases x with
  | error e' => simp [bind, Except.bind]
  | ok a => simp [bind, Except.bind]

/-! ## Numbers -/

/-- A whole number that fits into 64 bits, or a floating-point number. -/
def Number.Fits : Number → Prop
  | integer n => Numeral.Fits n
  | _ => True

namespace Numeral

theorem absorb_lt {n : Nat} (digits : List Char) (h : n < UInt64.size) :
    (absorb n digits).1 < UInt64.size := by
  induction digits generalizing n with
  | nil => exact h
  | cons c rest ih =>
      rw [absorb]
      split
      · next hnext => exact ih hnext
      · exact h

theorem fits_value {m : Numeral} {n : Number} (h : m.value = .ok n) :
    n.Fits := by
  have hlt : (absorb 0 m.whole).1 < UInt64.size := absorb_lt _ (by decide)
  rw [value] at h
  generalize absorb 0 m.whole = absorbed at h hlt
  obtain ⟨k, dropped⟩ := absorbed
  simp only [UInt64.size] at h hlt
  split at h
  · split at h
    · obtain rfl := Except.ok.inj h
      refine ⟨?_, ?_⟩
      · show -(9223372036854775808 : Int) ≤ k
        omega
      · show (k : Int) < (18446744073709551616 : Int)
        omega
    · split at h
      · next hrange =>
          obtain rfl := Except.ok.inj h
          refine ⟨?_, ?_⟩
          · show -(9223372036854775808 : Int) ≤ -k
            omega
          · show -(k : Int) < (18446744073709551616 : Int)
            omega
      · obtain rfl := Except.ok.inj h
        trivial
  · obtain ⟨rank, -, h⟩ := bind_eq_ok.mp h
    obtain rfl := Except.ok.inj h
    trivial

end Numeral

namespace Token

/-- Whether the number of a token fits. -/
def Fits (token : Token) : Prop := ∀ n, token = .number (.ok n) → n.Fits

theorem fits_lexWhole {text : List Char} {token : Token}
    (h : lexWhole text = .error token) : token.Fits := by
  rw [lexWhole.eq_def] at h
  repeat' split at h
  all_goals
    first
    | (obtain rfl := Except.error.inj h; rintro _ ⟨⟩)
    | cases h

theorem fits_of_missing {α : Type} {c : Prop} [Decidable c] {a : α}
    {text : List Char} {token : Token}
    (h : (if c then Except.error (missingDigit text) else .ok a) =
      .error token) : token.Fits := by
  split at h
  · obtain rfl := Except.error.inj h
    rintro _ ⟨⟩
  · cases h

theorem fits_lexFraction {text : List Char} {token : Token}
    (h : lexFraction text = .error token) : token.Fits := by
  rw [lexFraction.eq_def] at h
  split at h
  · exact fits_of_missing h
  · cases h

theorem fits_lexExponent {text : List Char} {token : Token}
    (h : lexExponent text = .error token) : token.Fits := by
  rw [lexExponent.eq_def] at h
  split at h
  · cases h
  · split at h
    · dsimp only at h
      split at h <;> exact fits_of_missing h
    · cases h

theorem fits_lexNumber (negative : Bool) (text : List Char) :
    (lexNumber negative text).1.Fits := by
  rw [lexNumber]
  split
  · exact fun n hn => Numeral.fits_value (Token.number.inj hn)
  · next token h =>
      rw [lexNumeral] at h
      obtain hwhole | ⟨_, -, h⟩ := bind_eq_error.mp h
      · exact fits_lexWhole hwhole
      obtain hfraction | ⟨_, -, h⟩ := bind_eq_error.mp h
      · exact fits_lexFraction hfraction
      obtain hexponent | ⟨_, -, h⟩ := bind_eq_error.mp h
      · exact fits_lexExponent hexponent
      cases h

theorem fits_lexWord {token : Token} (htoken : token.Fits)
    (word text : List Char) : (lexWord token word text).1.Fits := by
  induction word generalizing text with
  | nil => exact htoken
  | cons w word ih =>
      cases text with
      | nil => rintro _ ⟨⟩
      | cons c text =>
          rw [lexWord]
          split
          · exact ih text
          · rintro _ ⟨⟩

theorem fits_lexToken (c : Char) (text : List Char) :
    (lexToken c text).1.Fits := by
  rw [lexToken.eq_def]
  split
  case h_7 =>
    rw [lexString.eq_def]
    split <;> rintro _ ⟨⟩
  case h_8 | h_9 | h_10 =>
    refine fits_lexWord ?_ _ _
    rintro _ ⟨⟩
  case h_11 => exact fits_lexNumber true _
  case h_12 =>
    split
    · exact fits_lexNumber false _
    · rintro _ ⟨⟩
  all_goals rintro _ ⟨⟩

theorem fits_ofText {text : List Char} : ∀ token ∈ ofText text, token.Fits := by
  rw [ofText]
  generalize text.length = count
  induction count generalizing text with
  | zero => exact List.forall_mem_nil _
  | succ count ih =>
      rw [lexUpTo]
      split
      · exact List.forall_mem_nil _
      · exact List.forall_mem_cons.mpr ⟨fits_lexToken _ _, ih⟩

end Token

/-! ## Trees -/

namespace Tree

/-- Whether at most `n` lists and objects that may be read are inside one
another, and all whole numbers fit. -/
inductive Within : Nat → Tree → Prop
  | null {n : Nat} : Within n .null
  | bool {n : Nat} (b : Bool) : Within n (.bool b)
  | number {n : Nat} {value : Except Malformed Number}
      (fits : ∀ x, value = .ok x → x.Fits) : Within n (.number value)
  | string {n : Nat} (value : Except Malformed String) :
      Within n (.string value)
  | list {n : Nat} {items : List Tree} (close : Close)
      (inside : ∀ t ∈ items, Within n t) : Within (n + 1) (.list items close)
  | object {n : Nat} {members : List (Key × Tree)} (close : Close)
      (inside : ∀ m ∈ members, Within n m.2) :
      Within (n + 1) (.object members close)
  | deep {n : Nat} (tree : Tree) : Within n (.deep tree)
  | gap {n : Nat} (hole : Gap) : Within n (.gap hole)

/-- How many lists and objects may still be opened inside others. -/
def room (stack : List Frame) : Nat := depthLimit - stack.length

/-- What is open has room for what is in it. -/
def Roomy : List Frame → Prop
  | [] => True
  | .list items :: stack =>
    (∀ t ∈ items, Within (room stack - 1) t) ∧ Roomy stack
  | .entry _ members :: stack =>
    (∀ m ∈ members, Within (room stack - 1) m.2) ∧ Roomy stack

/-- What is still being read has room for what is in it. -/
def State.Roomy (stack : List Frame) : State → Prop
  | .value => True
  | .item _ items | .itemEnd items => ∀ t ∈ items, Within (room stack - 1) t
  | .key _ members | .colon _ members | .memberEnd members =>
    ∀ m ∈ members, Within (room stack - 1) m.2

/-- What a step leads to has room. -/
def Step.Roomy : Step → Prop
  | .next state stack => state.Roomy stack ∧ Tree.Roomy stack
  | .whole tree | .cut tree => Within depthLimit tree

variable {stack : List Frame}

theorem room_cons (frame : Frame) (stack : List Frame) :
    room (frame :: stack) = room stack - 1 := by
  rw [room, room, List.length_cons]
  omega

theorem room_eq_succ (h : stack.length < depthLimit) :
    room stack = room stack - 1 + 1 := by
  rw [room]
  omega

theorem within_nested {tree : Tree}
    (h : stack.length < depthLimit → Within (room stack) tree) :
    Within (room stack) (nested stack tree) := by
  rw [nested]
  split
  · next hlt => exact h hlt
  · exact .deep tree

theorem within_listOf {items : List Tree}
    (h : ∀ t ∈ items, Within (room stack - 1) t) (close : Close) :
    Within (room stack) (listOf stack items close) := by
  refine within_nested fun hlt => ?_
  rw [room_eq_succ hlt]
  exact .list close fun t ht => h t (List.mem_reverse.mp ht)

theorem within_objectOf {members : List (Key × Tree)}
    (h : ∀ m ∈ members, Within (room stack - 1) m.2) (close : Close) :
    Within (room stack) (objectOf stack members close) := by
  refine within_nested fun hlt => ?_
  rw [room_eq_succ hlt]
  exact .object close fun m hm => h m (List.mem_reverse.mp hm)

theorem within_unwind {tree : Tree} (h : Within (room stack) tree)
    (hstack : Roomy stack) : Within depthLimit (unwind tree stack) := by
  induction stack generalizing tree with
  | nil => exact h
  | cons frame stack ih =>
      rw [room_cons] at h
      cases frame with
      | list items =>
          obtain ⟨hitems, hstack⟩ := hstack
          exact ih (within_listOf (List.forall_mem_cons.mpr ⟨h, hitems⟩) _)
            hstack
      | entry key members =>
          obtain ⟨hmembers, hstack⟩ := hstack
          exact ih (within_objectOf (List.forall_mem_cons.mpr ⟨h, hmembers⟩) _)
            hstack

theorem roomy_complete {tree : Tree} (h : Within (room stack) tree)
    (hstack : Roomy stack) : (complete tree stack).Roomy := by
  cases stack with
  | nil => exact h
  | cons frame stack =>
      rw [room_cons] at h
      cases frame with
      | list items => exact ⟨List.forall_mem_cons.mpr ⟨h, hstack.1⟩, hstack.2⟩
      | entry key members =>
          exact ⟨List.forall_mem_cons.mpr ⟨h, hstack.1⟩, hstack.2⟩

theorem roomy_cutAt (hole : Gap) (hstack : Roomy stack) :
    (cutAt hole stack).Roomy :=
  within_unwind (.gap hole) hstack

theorem roomy_begin {token : Token} (htoken : token.Fits)
    (hstack : Roomy stack) : (begin token stack).Roomy := by
  cases token with
  | openList | openObject => exact ⟨List.forall_mem_nil _, hstack⟩
  | null => exact roomy_complete .null hstack
  | bool b => exact roomy_complete (.bool b) hstack
  | number value =>
      exact roomy_complete (.number fun x hx => htoken x (hx ▸ rfl)) hstack
  | string value => exact roomy_complete (.string value) hstack
  | _ => exact roomy_cutAt _ hstack

theorem roomy_step {token : Token} (htoken : token.Fits) {state : State}
    (hstate : state.Roomy stack) (hstack : Roomy stack) :
    (step token stack state).Roomy := by
  cases state with
  | value => exact roomy_begin htoken hstack
  | item first items =>
      rw [step.eq_def]
      dsimp only
      split
      · exact roomy_complete (within_listOf hstate _) hstack
      · exact within_unwind (within_listOf hstate _) hstack
      · exact roomy_begin htoken ⟨hstate, hstack⟩
  | itemEnd items =>
      rw [step.eq_def]
      dsimp only
      split
      · exact roomy_complete (within_listOf hstate _) hstack
      · exact ⟨hstate, hstack⟩
      · exact within_unwind (within_listOf hstate _) hstack
  | key first members =>
      rw [step.eq_def]
      dsimp only
      split
      · exact ⟨hstate, hstack⟩
      · exact roomy_complete (within_objectOf hstate _) hstack
      · exact within_unwind (within_objectOf hstate _) hstack
      · exact roomy_cutAt _ ⟨hstate, hstack⟩
      · exact roomy_cutAt _ ⟨hstate, hstack⟩
  | colon key members =>
      rw [step.eq_def]
      dsimp only
      split
      · exact ⟨trivial, hstate, hstack⟩
      · exact roomy_cutAt _ ⟨hstate, hstack⟩
  | memberEnd members =>
      rw [step.eq_def]
      dsimp only
      split
      · exact roomy_complete (within_objectOf hstate _) hstack
      · exact ⟨hstate, hstack⟩
      · exact within_unwind (within_objectOf hstate _) hstack

theorem within_stop {state : State} (hstate : state.Roomy stack)
    (hstack : Roomy stack) : Within depthLimit (stop stack state) := by
  cases state with
  | value => exact within_unwind (.gap _) hstack
  | item | itemEnd => exact within_unwind (within_listOf hstate _) hstack
  | key | memberEnd => exact within_unwind (within_objectOf hstate _) hstack
  | colon => exact within_unwind (.gap _) ⟨hstate, hstack⟩

theorem within_build {tokens : List Token} (htokens : ∀ t ∈ tokens, t.Fits)
    {state : State} (hstate : state.Roomy stack) (hstack : Roomy stack) :
    Within depthLimit (build tokens state stack).1 := by
  -- That there is room is what every step preserves.
  induction tokens generalizing state stack with
  | nil => exact within_stop hstate hstack
  | cons token rest ih =>
      rw [List.forall_mem_cons] at htokens
      have hstep := roomy_step htokens.1 hstate hstack
      rw [build]
      cases h : step token stack state with
      | next state stack =>
          rw [h] at hstep
          exact ih htokens.2 hstep.1 hstep.2
      | whole tree | cut tree =>
          rw [h] at hstep
          exact hstep

/-- The tree of a text. -/
theorem within_ofText (text : List Char) : Within depthLimit (ofText text).1 :=
  within_build Token.fits_ofText trivial trivial

end Tree

/-! ## Values -/

namespace Json

/-- The same two bounds for a value. -/
structure Within (n : Nat) (j : Json) : Prop where
  depth_le : j.depth ≤ n
  fits : ∀ x ∈ j.numbers, x.Fits

theorem itemsDepth_le_iff {items : List Json} {n : Nat} :
    itemsDepth items ≤ n ↔ ∀ j ∈ items, j.depth ≤ n := by
  induction items with
  | nil => simp [itemsDepth]
  | cons j rest ih => rw [itemsDepth, Nat.max_le, ih, List.forall_mem_cons]

theorem membersDepth_le_iff {members : List (String × Json)} {n : Nat} :
    membersDepth members ≤ n ↔ ∀ m ∈ members, m.2.depth ≤ n := by
  induction members with
  | nil => simp [membersDepth]
  | cons m rest ih => rw [membersDepth, Nat.max_le, ih, List.forall_mem_cons]

theorem within_array {items : List Json} {n : Nat}
    (h : ∀ j ∈ items, j.Within n) : (array items).Within (n + 1) where
  depth_le := Nat.succ_le_succ
    (itemsDepth_le_iff.mpr fun j hj => (h j hj).depth_le)
  fits x hx := by
    obtain ⟨j, hj, hx⟩ := mem_itemNumbers.mp hx
    exact (h j hj).fits x hx

theorem within_object {members : List (String × Json)} {n : Nat}
    (h : ∀ m ∈ members, m.2.Within n) : (object members).Within (n + 1) where
  depth_le := Nat.succ_le_succ
    (membersDepth_le_iff.mpr fun m hm => (h m hm).depth_le)
  fits x hx := by
    obtain ⟨m, hm, hx⟩ := mem_memberNumbers.mp hx
    exact (h m hm).fits x hx

theorem Within.array_items {items : List Json} {n : Nat}
    (h : (array items).Within (n + 1)) : ∀ j ∈ items, j.Within n := fun j hj =>
  ⟨itemsDepth_le_iff.mp (Nat.le_of_succ_le_succ h.depth_le) j hj,
    fun x hx => h.fits x (mem_itemNumbers.mpr ⟨j, hj, hx⟩)⟩

theorem Within.object_members {members : List (String × Json)} {n : Nat}
    (h : (object members).Within (n + 1)) : ∀ m ∈ members, m.2.Within n :=
  fun m hm =>
    ⟨membersDepth_le_iff.mp (Nat.le_of_succ_le_succ h.depth_le) m hm,
      fun x hx => h.fits x (mem_memberNumbers.mpr ⟨m, hm, hx⟩)⟩

theorem Within.exists_succ {j : Json} {n : Nat} (h : j.Within n)
    (hpos : 0 < j.depth) : ∃ m, n = m + 1 :=
  Nat.exists_eq_add_one.mpr (Nat.lt_of_lt_of_le hpos h.depth_le)

theorem canonicalItems_eq (items : List Json) :
    canonicalItems items = items.map canonical := by
  induction items with
  | nil => rfl
  | cons j rest ih => rw [canonicalItems, ih, List.map_cons]

theorem mem_canonicalMembers {members placed : List (String × Json)}
    {m : String × Json} (h : m ∈ canonicalMembers placed members) :
    m ∈ placed ∨ ∃ m' ∈ members, m.2 = m'.2.canonical := by
  induction members generalizing placed with
  | nil => exact .inl h
  | cons head rest ih =>
      obtain ⟨k, j⟩ := head
      rw [canonicalMembers] at h
      obtain hplaced | ⟨m', hm', heq⟩ := ih h
      · obtain rfl | hplaced := mem_insertEntry hplaced
        · exact .inr ⟨_, List.mem_cons_self, rfl⟩
        · exact .inl hplaced
      · exact .inr ⟨m', List.mem_cons_of_mem _ hm', heq⟩

/-- Putting a value in canonical form only leaves parts of it out. -/
theorem Within.canonical {j : Json} {n : Nat} (h : j.Within n) :
    j.canonical.Within n := by
  induction j using Json.induction generalizing n with
  | null | bool | number | string => exact h
  | array items ih =>
      -- The array is inside of nothing but takes one of the `n` itself.
      obtain ⟨n, rfl⟩ := h.exists_succ (Nat.succ_pos _)
      rw [Json.canonical, canonicalItems_eq]
      refine within_array fun j hj => ?_
      obtain ⟨i, hi, rfl⟩ := List.mem_map.mp hj
      exact ih i hi (h.array_items i hi)
  | object members ih =>
      obtain ⟨n, rfl⟩ := h.exists_succ (Nat.succ_pos _)
      rw [Json.canonical]
      refine within_object fun m hm => ?_
      obtain hplaced | ⟨m', hm', heq⟩ := mem_canonicalMembers hm
      · cases hplaced
      · rw [heq]
        exact ih m' hm' (h.object_members m' hm')

end Json

namespace Tree

theorem mem_of_jsonItems {items : List Tree} {js : List Json}
    (h : jsonItems items = .ok js) {j : Json} (hj : j ∈ js) :
    ∃ t ∈ items, t.json = .ok j := by
  induction items generalizing js with
  | nil =>
      obtain rfl := Except.ok.inj h
      cases hj
  | cons t rest ih =>
      rw [jsonItems] at h
      obtain ⟨i, hi, h⟩ := bind_eq_ok.mp h
      obtain ⟨is, his, h⟩ := bind_eq_ok.mp h
      obtain rfl := Except.ok.inj h
      obtain rfl | hj := List.mem_cons.mp hj
      · exact ⟨t, List.mem_cons_self, hi⟩
      · obtain ⟨u, hu, hjson⟩ := ih his hj
        exact ⟨u, List.mem_cons_of_mem _ hu, hjson⟩

theorem mem_of_jsonMembers {members : List (Key × Tree)}
    {ms : List (String × Json)} (h : jsonMembers members = .ok ms)
    {m : String × Json} (hm : m ∈ ms) : ∃ t ∈ members, t.2.json = .ok m.2 := by
  induction members generalizing ms with
  | nil =>
      obtain rfl := Except.ok.inj h
      cases hm
  | cons t rest ih =>
      obtain ⟨key, tree⟩ := t
      rw [jsonMembers] at h
      obtain ⟨name, -, h⟩ := bind_eq_ok.mp h
      obtain ⟨i, hi, h⟩ := bind_eq_ok.mp h
      obtain ⟨is, his, h⟩ := bind_eq_ok.mp h
      obtain rfl := Except.ok.inj h
      obtain rfl | hm := List.mem_cons.mp hm
      · exact ⟨_, List.mem_cons_self, hi⟩
      · obtain ⟨u, hu, hjson⟩ := ih his hm
        exact ⟨u, List.mem_cons_of_mem _ hu, hjson⟩

/-- Free JSON keeps the bounds of the tree that it is made of. -/
theorem Within.json {tree : Tree} {n : Nat} (h : Within n tree) {j : Json}
    (hj : tree.json = .ok j) : j.Within n := by
  induction h generalizing j with
  | null | bool =>
      obtain rfl := Except.ok.inj hj
      exact ⟨Nat.zero_le _, List.forall_mem_nil _⟩
  | @number n value fits =>
      cases value with
      | error fault => cases hj
      | ok x =>
          obtain rfl := Except.ok.inj hj
          refine ⟨Nat.zero_le _, fun y hy => ?_⟩
          obtain rfl := List.mem_singleton.mp hy
          exact fits y rfl
  | string value =>
      cases value with
      | error fault => cases hj
      | ok s =>
          obtain rfl := Except.ok.inj hj
          exact ⟨Nat.zero_le _, List.forall_mem_nil _⟩
  | list close inside ih =>
      rw [Tree.json] at hj
      obtain ⟨js, hjs, hj⟩ := bind_eq_ok.mp hj
      obtain ⟨-, -, hj⟩ := bind_eq_ok.mp hj
      obtain rfl := Except.ok.inj hj
      refine Json.within_array fun i hi => ?_
      obtain ⟨t, ht, hjson⟩ := mem_of_jsonItems hjs hi
      exact ih t ht hjson
  | object close inside ih =>
      rw [Tree.json] at hj
      obtain ⟨ms, hms, hj⟩ := bind_eq_ok.mp hj
      obtain ⟨-, -, hj⟩ := bind_eq_ok.mp hj
      obtain rfl := Except.ok.inj hj
      refine Json.within_object fun m hm => ?_
      obtain ⟨t, ht, hjson⟩ := mem_of_jsonMembers hms hm
      exact ih t ht hjson
  | deep | gap => cases hj

end Tree

end Flowgraph
