/-!
# Tables by name

A table gives each of some names one value. Its entries are kept in increasing
order of their names, by code point, so two tables that answer alike are equal,
and the order in which entries were put in leaves no trace.
-/

namespace Flowgraph

/-- Puts an entry in its place by name; an entry of that name is replaced. -/
def insertEntry (name : String) (value : α) :
    List (String × α) → List (String × α)
  | [] => [(name, value)]
  | (k, v) :: rest =>
    if name < k then (name, value) :: (k, v) :: rest
    else if name = k then (name, value) :: rest
    else (k, v) :: insertEntry name value rest

/-- Entries with strictly increasing names. -/
abbrev Increasing (entries : List (String × α)) : Prop :=
  entries.Pairwise fun a b => a.1 < b.1

theorem mem_insertEntry {name : String} {value : α}
    {entries : List (String × α)} {e : String × α}
    (h : e ∈ insertEntry name value entries) :
    e = (name, value) ∨ e ∈ entries := by
  induction entries with
  | nil => simpa [insertEntry] using h
  | cons head rest ih =>
    obtain ⟨k, v⟩ := head
    simp only [insertEntry] at h
    split at h
    · simpa using h
    · split at h
      · rcases List.mem_cons.1 h with h | h
        · exact .inl h
        · exact .inr (List.mem_cons_of_mem _ h)
      · rcases List.mem_cons.1 h with h | h
        · exact .inr (by simp [h])
        · exact (ih h).imp_right (List.mem_cons_of_mem _)

theorem increasing_insertEntry {name : String} {value : α}
    {entries : List (String × α)} (h : Increasing entries) :
    Increasing (insertEntry name value entries) := by
  induction entries with
  | nil => simp [insertEntry, Increasing]
  | cons head rest ih =>
    obtain ⟨k, v⟩ := head
    obtain ⟨hk, hrest⟩ := List.pairwise_cons.1 h
    simp only [insertEntry]
    split
    · next hlt =>
      refine List.pairwise_cons.2 ⟨fun e he => ?_, h⟩
      rcases List.mem_cons.1 he with rfl | he
      · exact hlt
      · exact String.lt_trans hlt (hk e he)
    · next hnlt =>
      split
      · next heq =>
        exact List.pairwise_cons.2 ⟨fun e he => heq ▸ hk e he, hrest⟩
      · next hne =>
        refine List.pairwise_cons.2 ⟨fun e he => ?_, ih hrest⟩
        rcases mem_insertEntry he with rfl | he
        · exact Std.lt_of_le_of_ne (String.not_lt.1 hnlt) (Ne.symm hne)
        · exact hk e he

/-- A value for each of some names. -/
structure Table (α : Type) where
  entries : List (String × α)
  increasing : Increasing entries
  deriving DecidableEq

namespace Table

/-- The table without entries. -/
def empty : Table α := ⟨[], .nil⟩

/-- Sets the value of a name. -/
def insert (t : Table α) (name : String) (value : α) : Table α :=
  ⟨insertEntry name value t.entries, increasing_insertEntry t.increasing⟩

/-- The value of a name, if it has one. -/
def find? (t : Table α) (name : String) : Option α :=
  (t.entries.find? fun e => e.1 = name).map (·.2)

/-- The names with a value, in increasing order. -/
def names (t : Table α) : List String := t.entries.map (·.1)

/-- Sets entry after entry, so the last of several with one name counts. -/
def ofList (entries : List (String × α)) : Table α :=
  entries.foldl (fun t e => t.insert e.1 e.2) empty

end Table

end Flowgraph
