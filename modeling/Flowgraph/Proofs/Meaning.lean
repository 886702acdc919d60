import Flowgraph.Proofs.Loading

/-!
# What a text means

A text that can be read as free JSON has one tree, and it is the tree of the
value: everything in it is closed, every name and every string is whole, and
every number is in range. How the text is laid out, how its characters are
escaped and how its numbers are spelled has left no trace in the tree. So what a
reader makes of such a text is a matter of the value alone, and `asTree` is all
that has to be known about it.
-/

namespace Flowgraph

namespace Json

mutual

/-- The tree of every text in which the value stands. -/
def asTree : Json → Tree
  | .null => .null
  | .bool b => .bool b
  | .number n => .number (.ok n)
  | .string s => .string (.ok s)
  | .array items => .list (itemsAsTrees items) .closed
  | .object members => .object (membersAsTrees members) .closed

/-- The trees of items. -/
def itemsAsTrees : List Json → List Tree
  | [] => []
  | j :: rest => j.asTree :: itemsAsTrees rest

/-- The trees of members. -/
def membersAsTrees : List (String × Json) → List (Key × Tree)
  | [] => []
  | (name, j) :: rest => (.ok name, j.asTree) :: membersAsTrees rest

end

/-- The value that a text holds, and nothing else. -/
def StandsIn (j : Json) (text : String) : Prop :=
  ∃ tree, Tree.ofText text.toList = (tree, []) ∧ tree.json = .ok j

theorem standsIn_iff {j : Json} {text : String} :
    j.StandsIn text ↔ (Tree.ofText text.toList).2.isEmpty ∧
      (Tree.ofText text.toList).1.json = .ok j := by
  rw [List.isEmpty_iff]
  constructor
  · rintro ⟨tree, htree, hjson⟩
    rw [htree]
    exact ⟨rfl, hjson⟩
  · rintro ⟨hrest, hjson⟩
    exact ⟨_, Prod.ext rfl hrest, hjson⟩

instance (j : Json) (text : String) : Decidable (j.StandsIn text) :=
  decidable_of_iff _ standsIn_iff.symm

/-! ## One tree -/

theorem readList_eq_ok {close : Close} {u : Unit}
    (h : close.readList = .ok u) : close = .closed := by
  cases close <;> first | rfl | cases h

theorem readObject_eq_ok {close : Close} {u : Unit}
    (h : close.readObject = .ok u) : close = .closed := by
  cases close <;> first | rfl | cases h

mutual

/-- What is read as a value is the tree of that value. -/
theorem eq_asTree_of_json :
    ∀ {tree : Tree} {j : Json}, tree.json = .ok j → tree = j.asTree
  | .null, _, h => by
      cases h
      rfl
  | .bool _, _, h => by
      cases h
      rfl
  | .number n, _, h => by
      cases n with
      | error fault => cases h
      | ok n =>
          cases h
          rfl
  | .string s, _, h => by
      cases s with
      | error fault => cases h
      | ok s =>
          cases h
          rfl
  | .list items close, _, h => by
      rw [Tree.json] at h
      obtain ⟨js, hjs, h⟩ := bind_eq_ok.mp h
      obtain ⟨_, hclose, h⟩ := bind_eq_ok.mp h
      obtain rfl := Except.ok.inj h
      rw [asTree, eq_itemsAsTrees hjs, readList_eq_ok hclose]
  | .object members close, _, h => by
      rw [Tree.json] at h
      obtain ⟨ms, hms, h⟩ := bind_eq_ok.mp h
      obtain ⟨_, hclose, h⟩ := bind_eq_ok.mp h
      obtain rfl := Except.ok.inj h
      rw [asTree, eq_membersAsTrees hms, readObject_eq_ok hclose]
  | .deep _, _, h => by cases h
  | .gap _, _, h => by cases h

theorem eq_itemsAsTrees : ∀ {items : List Tree} {js : List Json},
    Tree.jsonItems items = .ok js → items = itemsAsTrees js
  | [], _, h => by
      obtain rfl := Except.ok.inj h
      rfl
  | tree :: rest, _, h => by
      rw [Tree.jsonItems] at h
      obtain ⟨j, hj, h⟩ := bind_eq_ok.mp h
      obtain ⟨js, hjs, h⟩ := bind_eq_ok.mp h
      obtain rfl := Except.ok.inj h
      rw [itemsAsTrees, ← eq_asTree_of_json hj, ← eq_itemsAsTrees hjs]

theorem eq_membersAsTrees :
    ∀ {members : List (Key × Tree)} {ms : List (String × Json)},
      Tree.jsonMembers members = .ok ms → members = membersAsTrees ms
  | [], _, h => by
      obtain rfl := Except.ok.inj h
      rfl
  | (key, tree) :: rest, _, h => by
      rw [Tree.jsonMembers] at h
      obtain ⟨name, hname, h⟩ := bind_eq_ok.mp h
      obtain ⟨j, hj, h⟩ := bind_eq_ok.mp h
      obtain ⟨ms, hms, h⟩ := bind_eq_ok.mp h
      obtain rfl := Except.ok.inj h
      rw [membersAsTrees, hname, ← eq_asTree_of_json hj,
        ← eq_membersAsTrees hms]

end

mutual

/-- The value can be read from its tree. -/
theorem json_asTree : ∀ j : Json, j.asTree.json = .ok j
  | .null | .bool _ | .number _ | .string _ => rfl
  | .array items => by
      rw [asTree, Tree.json, jsonItems_asTrees items]
      rfl
  | .object members => by
      rw [asTree, Tree.json, jsonMembers_asTrees members]
      rfl

theorem jsonItems_asTrees :
    ∀ items : List Json, Tree.jsonItems (itemsAsTrees items) = .ok items
  | [] => rfl
  | j :: rest => by
      rw [itemsAsTrees, Tree.jsonItems, json_asTree j, jsonItems_asTrees rest]
      rfl

theorem jsonMembers_asTrees : ∀ members : List (String × Json),
    Tree.jsonMembers (membersAsTrees members) = .ok members
  | [] => rfl
  | (name, j) :: rest => by
      rw [membersAsTrees, Tree.jsonMembers, json_asTree j,
        jsonMembers_asTrees rest]
      rfl

end

mutual

/-- The tree of a value can be passed over. -/
theorem skip_asTree : ∀ j : Json, j.asTree.skip = .ok ()
  | .null | .bool _ | .number _ | .string _ => rfl
  | .array items => by
      rw [asTree, Tree.skip, skipItems_asTrees items]
      rfl
  | .object members => by
      rw [asTree, Tree.skip, skipMembers_asTrees members]
      rfl

theorem skipItems_asTrees :
    ∀ items : List Json, Tree.skipItems (itemsAsTrees items) = .ok ()
  | [] => rfl
  | j :: rest => by
      rw [itemsAsTrees, Tree.skipItems, skip_asTree j, skipItems_asTrees rest]
      rfl

theorem skipMembers_asTrees : ∀ members : List (String × Json),
    Tree.skipMembers (membersAsTrees members) = .ok ()
  | [] => rfl
  | (_, j) :: rest => by
      rw [membersAsTrees, Tree.skipMembers, skip_asTree j,
        skipMembers_asTrees rest]
      rfl

end

/-! ## Whole numbers -/

/-- All numbers in the value are whole ones that fit. -/
def Whole (j : Json) : Prop :=
  ∀ n ∈ j.numbers, ∃ k, n = .integer k ∧ Numeral.Fits k

@[simp] theorem whole_string (s : String) : (string s).Whole := nofun

@[simp] theorem whole_bool (b : Bool) : (bool b).Whole := nofun

@[simp] theorem whole_nat (n : UInt16) : (nat n.toNat).Whole :=
  List.forall_mem_singleton.mpr
    ⟨_, rfl, Numeral.fits_toNat (by decide) n.toBitVec⟩

@[simp] theorem whole_array {items : List Json} :
    (array items).Whole ↔ ∀ j ∈ items, j.Whole := by
  constructor
  · intro h j hj n hn
    exact h n (mem_itemNumbers.mpr ⟨j, hj, hn⟩)
  · intro h n hn
    obtain ⟨j, hj, hn⟩ := mem_itemNumbers.mp hn
    exact h j hj n hn

@[simp] theorem whole_object {ms : List (String × Json)} :
    (object ms).Whole ↔ ∀ m ∈ ms, m.2.Whole := by
  constructor
  · intro h m hm n hn
    exact h n (mem_memberNumbers.mpr ⟨m, hm, hn⟩)
  · intro h n hn
    obtain ⟨m, hm, hn⟩ := mem_memberNumbers.mp hn
    exact h m hm n hn

@[simp] theorem whole_member? {α : Type} {name : String} {write : α → Json}
    {value : Option α} :
    (∀ m ∈ member? name write value, m.2.Whole) ↔
      ∀ a ∈ value, (write a).Whole := by
  cases value <;> simp [member?]

/-! ## Reading what stands in a text -/

/-- A reader makes of a text what it makes of the value in it. -/
theorem StandsIn.ofText {α : Type} {j : Json} {text : String}
    (h : j.StandsIn text) (read : Reader α) :
    read.ofText text = read j.asTree := by
  obtain ⟨tree, htree, hjson⟩ := h
  rw [Reader.ofText, htree, eq_asTree_of_json hjson]
  cases hread : read j.asTree <;> simp [hread, bind, Except.bind, pure,
    Except.pure]

/-- What a written value is read as, if all numbers in it are whole ones that
fit, is the value. -/
theorem toTree_eq_asTree {j : Json} (h : j.Whole) : j.toTree = j.asTree :=
  eq_asTree_of_json (reread_of_integers h)

/-- A value whose whole numbers fit stands in the texts it is written as, but
for its floating-point numbers, which can be read as others. -/
theorem standsIn_written {j : Json} (h : j.Within Tree.depthLimit) :
    j.settled.StandsIn j.pretty ∧ j.settled.StandsIn j.compact :=
  ⟨⟨j.toTree, Tree.ofText_pretty h.depth_le, reread_eq_settled h.fits⟩,
    ⟨j.toTree, Tree.ofText_compact h.depth_le, reread_eq_settled h.fits⟩⟩

/-- There is nothing to settle in whole numbers. -/
theorem settled_eq_self {j : Json} (h : j.Whole) : j.settled = j := by
  have hfits : ∀ n ∈ j.numbers, n.Fits := fun n hn => by
    obtain ⟨k, rfl, hk⟩ := h n hn
    exact hk
  exact Except.ok.inj
    ((reread_eq_settled hfits).symm.trans (reread_of_integers h))

end Json

end Flowgraph
