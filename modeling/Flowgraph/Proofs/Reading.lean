import Flowgraph.Format.Document
import Flowgraph.Proofs.Building

/-!
# Reading records back

A record is read from its members one after another, and `Fills` is what the
members do to the record: each goes where the field of its name puts it. The
members that a record is written as fill a record that is still empty up again,
member by member, and an optional one that was left out has nothing to fill.
The two readers of records, from a text and from free JSON, differ in what they
say about malformed input; of members that fill a record they make the same.

A tagged value is read in two steps: its members beside the tag are free JSON
first. What free JSON is read as is `Json.reread`, which differs from the value
that was written only where a number does.
-/

namespace Flowgraph

/-! ## Records -/

namespace Field

variable {σ τ α β : Type} {fields : List (Field τ α)} {view : σ → τ}

/-- Reading the members one after another turns one record into another. -/
inductive Fills (fields : List (Field τ α)) (view : σ → τ) :
    List (String × σ) → α → α → Prop
  | nil {record : α} : Fills fields view [] record record
  | cons {name : String} {value : σ} {rest : List (String × σ)}
      {field : Field τ α} {first second last : α}
      (known : find? fields name = some field)
      (read : field.read (view value) first = .ok second)
      (filled : Fills fields view rest second last) :
      Fills fields view ((name, value) :: rest) first last

theorem Fills.append {ms ms' : List (String × σ)} {a b c : α}
    (h : Fills fields view ms a b) (h' : Fills fields view ms' b c) :
    Fills fields view (ms ++ ms') a c := by
  induction h with
  | nil => exact h'
  | cons known read _ ih => exact .cons known read (ih h')

theorem read_of {name : String} {presence : Presence}
    {read : τ → Except Problem β} {put : β → α → α} {value : τ} {b : β}
    (h : read value = .ok b) (record : α) :
    (Field.of name presence read put).read value record =
      .ok (put b record) := by
  simp [Field.of, h, bind, Except.bind, pure, Except.pure]

/-- A member that is written only if there is a value. -/
theorem fills_member? {γ : Type} {view : Json → τ} {write : β → Json}
    {name : String} {presence : Presence} {read : τ → Except Problem γ}
    {put : γ → α → α} {value : Option β} {c : γ} {first last : α}
    (known : find? fields name = some (.of name presence read put))
    (hread : ∀ b, value = some b → read (view (write b)) = .ok c)
    (hnone : value = none → first = last) (hlast : put c first = last) :
    Fills fields view (Json.member? name write value) first last := by
  cases value with
  | none =>
      rw [hnone rfl]
      exact .nil
  | some b => exact .cons known (read_of (hread b rfl) first) (hlast ▸ .nil)

theorem missing?_eq_none {names : List String} :
    missing? fields names = none ↔
      ∀ field ∈ fields, field.presence = .required → field.name ∈ names := by
  simp [missing?]

/-- What members that fill a record are read as, by any reader that takes a
known member whose name is new and asks for the missing ones at the end. -/
theorem Fills.run (run : List (String × σ) → List String → α → Except Problem α)
    (hnil : ∀ names record, missing? fields names = none →
      run [] names record = .ok record)
    (hcons : ∀ name value rest names field first second,
      find? fields name = some field → name ∉ names →
      field.read (view value) first = .ok second →
      run ((name, value) :: rest) names first =
        run rest (name :: names) second)
    {ms : List (String × σ)} {names : List String} {first last : α}
    (h : Fills fields view ms first last) (hnodup : (ms.map (·.1)).Nodup)
    (hfresh : ∀ name ∈ ms.map (·.1), name ∉ names)
    (hrequired : ∀ field ∈ fields, field.presence = .required →
      field.name ∈ names ∨ field.name ∈ ms.map (·.1)) :
    run ms names first = .ok last := by
  induction h generalizing names with
  | nil =>
      exact hnil names _ (missing?_eq_none.mpr (by simpa using hrequired))
  | @cons name value rest field first second last known read _ ih =>
      rw [List.map_cons, List.nodup_cons] at hnodup
      rw [List.map_cons, List.forall_mem_cons] at hfresh
      rw [hcons name value rest names field first second known hfresh.1 read]
      refine ih hnodup.2 (fun other hother => ?_)
        fun field hfield hpresence => ?_
      · rw [List.mem_cons, not_or]
        exact ⟨fun heq => hnodup.1 (heq ▸ hother), hfresh.2 other hother⟩
      · have hin := hrequired field hfield hpresence
        rw [List.map_cons, List.mem_cons] at hin
        rw [List.mem_cons]
        tauto

end Field

/-- A record is read back from members that fill it. -/
theorem Reader.record_of_fills {α : Type} {fields : List (Field Tree α)}
    {ms : List (String × Json)} {start last : α} (wanted : String)
    (h : Field.Fills fields Json.toTree ms start last)
    (hnodup : (ms.map (·.1)).Nodup)
    (hmissing : Field.missing? fields (ms.map (·.1)) = none) :
    record wanted fields start (Json.object ms).toTree = .ok last := by
  refine h.run (fun ms => members fields (Json.memberTrees ms) .closed)
    (fun names record hnone => ?_)
    (fun name value rest names field first second known fresh read => ?_)
    hnodup (fun _ _ => List.not_mem_nil)
    fun field hfield hpresence =>
      .inr (Field.missing?_eq_none.mp hmissing field hfield hpresence)
  · simp [Json.memberTrees, members, hnone, Close.readObject, Problem.lift,
      bind, Except.bind, pure, Except.pure]
  · simp only [Json.memberTrees, members, known, Problem.lift, bind,
      Except.bind, if_neg fresh, read]

theorem Content.record_of_fills {α : Type} {fields : List (Field Json α)}
    {ms : List (String × Json)} {start last : α} (wanted : String)
    (h : Field.Fills fields id ms start last)
    (hnodup : (ms.map (·.1)).Nodup)
    (hmissing : Field.missing? fields (ms.map (·.1)) = none) :
    record wanted fields start (.object ms) = .ok last := by
  refine h.run (members fields) (fun names record hnone => ?_)
    (fun name value rest names field first second known fresh read => ?_)
    hnodup (fun _ _ => List.not_mem_nil)
    fun field hfield hpresence =>
      .inr (Field.missing?_eq_none.mp hmissing field hfield hpresence)
  · rw [members, hnone]
  · rw [id] at read
    simp only [members, known, bind, Except.bind, if_neg fresh, read]

/-! ## Free JSON -/

namespace Json

/-- What a value is read as when it is read as free JSON. -/
def reread (j : Json) : Except Malformed Json := j.toTree.json

mutual

/-- The numbers in a value. -/
def numbers : Json → List Number
  | .number n => [n]
  | .array items => itemNumbers items
  | .object members => memberNumbers members
  | _ => []

/-- The numbers in items. -/
def itemNumbers : List Json → List Number
  | [] => []
  | j :: rest => j.numbers ++ itemNumbers rest

/-- The numbers in members. -/
def memberNumbers : List (String × Json) → List Number
  | [] => []
  | (_, j) :: rest => j.numbers ++ memberNumbers rest

end

theorem mem_itemNumbers {items : List Json} {n : Number} :
    n ∈ itemNumbers items ↔ ∃ j ∈ items, n ∈ j.numbers := by
  induction items with
  | nil => simp [itemNumbers]
  | cons j rest ih => simp [itemNumbers, ih]

theorem mem_memberNumbers {members : List (String × Json)} {n : Number} :
    n ∈ memberNumbers members ↔ ∃ m ∈ members, n ∈ m.2.numbers := by
  induction members with
  | nil => simp [memberNumbers]
  | cons m rest ih => simp [memberNumbers, ih]

theorem numberTree_integer {n : Int} (h : Numeral.Fits n) :
    numberTree (.integer n) = .number (.ok (.integer n)) := by
  rw [numberTree, Number.numeral?]
  exact congrArg Tree.number (Numeral.value_ofInt h)

/-- Members and what they are read as. -/
abbrev RereadMembers (members members' : List (String × Json)) : Prop :=
  List.Forall₂ (fun m m' => m.1 = m'.1 ∧ m.2.reread = .ok m'.2) members members'

theorem jsonItems_of {items items' : List Json}
    (h : List.Forall₂ (fun j i => j.reread = .ok i) items items') :
    Tree.jsonItems (itemTrees items) = .ok items' := by
  induction h with
  | nil => rfl
  | @cons j i rest rest' hj _ ih =>
      have hjson : j.toTree.json = .ok i := hj
      rw [itemTrees, Tree.jsonItems, hjson, ih]
      rfl

theorem jsonMembers_of {members members' : List (String × Json)}
    (h : RereadMembers members members') :
    Tree.jsonMembers (memberTrees members) = .ok members' := by
  induction h with
  | nil => rfl
  | @cons m m' rest rest' hm _ ih =>
      obtain ⟨hname, hvalue⟩ := hm
      have hjson : m.2.toTree.json = .ok m'.2 := hvalue
      rw [memberTrees, Tree.jsonMembers, hjson, ih, hname]
      rfl

/-- A value with no other numbers than whole ones that fit is read as it was
written. -/
theorem reread_of_integers {j : Json}
    (h : ∀ n ∈ j.numbers, ∃ k, n = .integer k ∧ Numeral.Fits k) :
    j.reread = .ok j := by
  induction j using Json.induction with
  | null | bool | string => rfl
  | number n =>
      obtain ⟨k, rfl, hk⟩ := h n List.mem_cons_self
      rw [reread, toTree, numberTree_integer hk]
      rfl
  | array items ih =>
      have hitems := jsonItems_of (List.forall₂_same.mpr fun j hj =>
        ih j hj fun n hn => h n (mem_itemNumbers.mpr ⟨j, hj, hn⟩))
      rw [reread, toTree, Tree.json, hitems]
      rfl
  | object members ih =>
      have hmembers := jsonMembers_of (List.forall₂_same.mpr fun m hm =>
        ⟨rfl, ih m hm fun n hn => h n (mem_memberNumbers.mpr ⟨m, hm, hn⟩)⟩)
      rw [reread, toTree, Tree.json, hmembers]
      rfl

end Json

/-! ## Tagged values -/

namespace Reader

variable {α : Type} {variants : Variants α} {tag name : String} {choice : α}

variable (variants choice) in
theorem taggedMembers_of {ms ms' : List (String × Json)}
    (h : Json.RereadMembers ms ms') (htag : ∀ m ∈ ms, m.1 ≠ tag)
    (content : List (String × Json)) :
    taggedMembers tag variants (some choice) content (Json.memberTrees ms)
        .closed =
      .ok (choice, .object (content.reverse ++ ms')) := by
  induction h generalizing content with
  | nil =>
      rw [List.append_nil]
      rfl
  | @cons m m' rest rest' hm _ ih =>
      obtain ⟨hname, hvalue⟩ := hm
      have hjson : m.2.toTree.json = .ok m'.2 := hvalue
      rw [List.forall_mem_cons] at htag
      have hrest := ih htag.2 ((m.1, m'.2) :: content)
      rw [List.reverse_cons, List.append_assoc, List.singleton_append,
        hname] at hrest
      simp only [Json.memberTrees, taggedMembers, Problem.lift, bind,
        Except.bind, if_neg htag.1, hjson]
      rw [hname, hrest]

/-- A value with its tag in front is taken apart into the variant and what the
other members are read as. -/
theorem tagged_of (wanted : String)
    (hname : variantNamed variants name = .ok choice)
    {ms ms' : List (String × Json)}
    (h : Json.RereadMembers ms ms') (htag : ∀ m ∈ ms, m.1 ≠ tag) :
    tagged tag wanted variants
        (Json.object ((tag, .string name) :: ms)).toTree =
      .ok (choice, .object ms') := by
  have hrest := taggedMembers_of variants choice h htag []
  simp only [Json.toTree, Json.memberTrees, tagged, taggedMembers, Problem.lift,
    bind, Except.bind, reduceIte, Option.isSome_none, Bool.false_eq_true,
    variantName, hname]
  exact hrest

end Reader

/-! ## Lists -/

/-- A list is read back item by item. -/
theorem Reader.list_of {α : Type} {read : Reader α} {items : List Json}
    {values : List α}
    (h : List.Forall₂ (fun j a => read j.toTree = .ok a) items values) :
    Reader.list read (Json.array items).toTree = .ok values := by
  have hmap : (Json.itemTrees items).mapM read = .ok values := by
    induction h with
    | nil => rfl
    | cons hj _ ih =>
        rw [Json.itemTrees, List.mapM_cons, hj, ih]
        rfl
  rw [Json.toTree, list, hmap]
  rfl

end Flowgraph
