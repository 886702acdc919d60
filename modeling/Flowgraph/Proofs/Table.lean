import Flowgraph.Table
import Flowgraph.Proofs.Distinct
import Mathlib.Data.List.Basic

/-!
# Looking into tables

What a table answers after an entry was put in, and after a whole list of them:
of two values under one name the later one stands, and other names are not
touched. Where the names of the list do not repeat, each of them has the value
that the list gives it.

A table is what it answers: entries are kept in the order of their names, so
tables with the same answers are equal.
-/

namespace Flowgraph

variable {α : Type}

theorem find?_insertEntry (name key : String) (value : α)
    (entries : List (String × α)) :
    ((insertEntry name value entries).find? fun e => e.1 = key) =
      if key = name then some (name, value)
      else entries.find? fun e => e.1 = key := by
  induction entries with
  | nil =>
      by_cases hkey : key = name
      · simp [insertEntry, hkey]
      · simp [insertEntry, hkey, Ne.symm hkey]
  | cons head rest ih =>
      obtain ⟨k, v⟩ := head
      by_cases hkey : key = name
      · subst hkey
        rw [if_pos rfl] at ih ⊢
        simp only [insertEntry]
        split
        · simp
        · split
          · simp
          · next hne => simp [Ne.symm hne, ih]
      · rw [if_neg hkey] at ih ⊢
        simp only [insertEntry]
        split
        · simp [Ne.symm hkey]
        · split
          · next heq => subst heq; simp [Ne.symm hkey]
          · simp only [List.find?_cons, ih]

theorem insertEntry_insertEntry (name : String) (a b : α)
    (entries : List (String × α)) :
    insertEntry name b (insertEntry name a entries) =
      insertEntry name b entries := by
  induction entries with
  | nil => simp [insertEntry]
  | cons head rest ih =>
      obtain ⟨k, v⟩ := head
      simp only [insertEntry]
      split
      · simp [insertEntry]
      · split
        · simp [insertEntry]
        · next hlt hne => simp [insertEntry, hlt, hne, ih]

namespace Table

theorem find?_insert (t : Table α) (name key : String) (value : α) :
    (t.insert name value).find? key =
      if key = name then some value else t.find? key := by
  simp only [find?, insert, find?_insertEntry]
  split
  · rfl
  · rfl

/-- A second value under one name replaces the first without a trace. -/
@[simp] theorem insert_insert (t : Table α) (name : String) (a b : α) :
    (t.insert name a).insert name b = t.insert name b := by
  simp only [insert, insertEntry_insertEntry]

theorem mem_names {t : Table α} {name : String} :
    name ∈ t.names ↔ (t.find? name).isSome := by
  simp [names, find?]

theorem names_nodup (t : Table α) : t.names.Nodup := by
  refine List.Pairwise.map _ ?_ t.increasing
  intro a b hlt heq
  exact String.lt_irrefl a.1 (heq ▸ hlt)

theorem find?_eq_some {t : Table α} {name : String} {value : α} :
    t.find? name = some value ↔ (name, value) ∈ t.entries := by
  have hkey (e : String × α) :
      t.entries.find? (fun e => e.1 = name) = some e ↔
        e ∈ t.entries ∧ e.1 = name :=
    find?_key_eq_some t.names_nodup
  rw [find?, Option.map_eq_some_iff]
  constructor
  · rintro ⟨e, hfind, rfl⟩
    obtain ⟨hmem, rfl⟩ := (hkey e).mp hfind
    exact hmem
  · exact fun hmem => ⟨_, (hkey _).mpr ⟨hmem, rfl⟩, rfl⟩

theorem ext_find? {a b : Table α} (h : ∀ name, a.find? name = b.find? name) :
    a = b := by
  have hmem (e : String × α) : e ∈ a.entries ↔ e ∈ b.entries := by
    rw [← find?_eq_some, ← find?_eq_some, h]
  have hperm : a.entries.Perm b.entries :=
    (List.perm_ext_iff_of_nodup a.names_nodup.of_map
      b.names_nodup.of_map).mpr hmem
  -- Names that increase on both sides leave only one way to list the entries.
  have hentries : a.entries = b.entries :=
    hperm.eq_of_pairwise
      (fun _ _ _ _ hlt hgt => absurd hgt (String.lt_asymm hlt))
      a.increasing b.increasing
  obtain ⟨entries, _⟩ := a
  subst hentries
  rfl

/-- Entries with different names can be put in in either order. -/
theorem insert_comm {t : Table α} {name key : String} (h : name ≠ key)
    (a b : α) :
    (t.insert name a).insert key b = (t.insert key b).insert name a := by
  refine ext_find? fun other => ?_
  simp only [find?_insert]
  by_cases hkey : other = key
  · rw [if_pos hkey, if_neg fun hname => h (hname.symm.trans hkey),
      if_pos hkey]
  · rw [if_neg hkey, if_neg hkey]

/-- Puts entries in one after another. -/
def insertAll (t : Table α) (entries : List (String × α)) : Table α :=
  entries.foldl (fun t e => t.insert e.1 e.2) t

theorem insertAll_cons (t : Table α) (e : String × α)
    (entries : List (String × α)) :
    t.insertAll (e :: entries) = (t.insert e.1 e.2).insertAll entries := rfl

theorem find?_insertAll_of_not_mem {entries : List (String × α)}
    {name : String} (h : name ∉ entries.map (·.1)) (t : Table α) :
    (t.insertAll entries).find? name = t.find? name := by
  induction entries generalizing t with
  | nil => rfl
  | cons e rest ih =>
      rw [List.map_cons, List.mem_cons, not_or] at h
      rw [insertAll_cons, ih h.2, find?_insert, if_neg h.1]

theorem find?_insertAll_of_mem {entries : List (String × α)}
    (hnodup : (entries.map (·.1)).Nodup) {name : String} {value : α}
    (h : (name, value) ∈ entries) (t : Table α) :
    (t.insertAll entries).find? name = some value := by
  induction entries generalizing t with
  | nil => cases h
  | cons e rest ih =>
      obtain ⟨hnew, hrest⟩ := List.nodup_cons.mp hnodup
      rw [insertAll_cons]
      rcases List.mem_cons.mp h with rfl | h
      · rw [find?_insertAll_of_not_mem hnew, find?_insert, if_pos rfl]
      · exact ih hrest h _

theorem mem_names_insertAll {entries : List (String × α)} {t : Table α}
    {name : String} : name ∈ (t.insertAll entries).names ↔
      name ∈ entries.map (·.1) ∨ name ∈ t.names := by
  induction entries generalizing t with
  | nil => simp [insertAll]
  | cons e rest ih =>
      rw [insertAll_cons, ih, mem_names, mem_names, find?_insert,
        List.map_cons, List.mem_cons]
      by_cases hname : name = e.1
      · simp [hname]
      · simp [hname]

/-- Where the values are those of a function it does not matter which of several
entries with one name is the last. -/
theorem find?_insertAll_map (names : List String) (f : String → α)
    (t : Table α) (name : String) :
    (t.insertAll (names.map fun key => (key, f key))).find? name =
      if name ∈ names then some (f name) else t.find? name := by
  induction names generalizing t with
  | nil => simp [insertAll]
  | cons key rest ih =>
      rw [List.map_cons, insertAll_cons, ih, find?_insert]
      by_cases hkey : name = key
      · subst hkey
        simp
      · simp [hkey]

/-- A table that is filled by a function answers with it. -/
theorem find?_ofList_map (names : List String) (f : String → α)
    (name : String) :
    (ofList (names.map fun key => (key, f key))).find? name =
      if name ∈ names then some (f name) else none :=
  find?_insertAll_map names f empty name

theorem mem_names_ofList {entries : List (String × α)} {name : String} :
    name ∈ (ofList entries).names ↔ name ∈ entries.map (·.1) := by
  have hempty : name ∉ (empty : Table α).names := List.not_mem_nil
  exact mem_names_insertAll.trans (or_iff_left hempty)

end Table

end Flowgraph
