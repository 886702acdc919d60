import Mathlib.Data.Finset.Card
import Mathlib.Data.List.Nodup
import Mathlib.Data.Set.Card

/-!
# Lists without repeats

Ids, links and connections are collected by `List.eraseDups`, which keeps the
first of several equal members. What comes out has no repeats, so its length is
the number of different members, and telling members apart by another key gives
the same number as long as the two keys agree on which members are equal. Where
the keys of a list do not repeat, a search by key finds the one member with it.

A list grows at its end: what a new member changes, `eraseDups_concat`, is what
the inductions go by.
-/

namespace Flowgraph

variable {α β γ : Type} [BEq α] [LawfulBEq α]

/-- Members that occur before are dropped. -/
theorem eraseDups_append_of_subset {l m : List α} (h : m ⊆ l) :
    (l ++ m).eraseDups = l.eraseDups := by
  have hnone : m.removeAll l = [] := by
    refine List.filter_eq_nil_iff.mpr fun a ha => ?_
    simpa using h ha
  rw [List.eraseDups_append, hnone, List.eraseDups_nil, List.append_nil]

theorem eraseDups_concat (l : List α) (a : α) : (l ++ [a]).eraseDups =
    if a ∈ l then l.eraseDups else l.eraseDups ++ [a] := by
  split
  · next ha =>
      exact eraseDups_append_of_subset (List.cons_subset.mpr ⟨ha, nofun⟩)
  · next ha =>
      have hnew : [a].removeAll l = [a] := by simp [List.removeAll, ha]
      rw [List.eraseDups_append, hnew]
      rfl

theorem nodup_eraseDups (l : List α) : l.eraseDups.Nodup := by
  induction l using List.reverseRecOn with
  | nil => exact .nil
  | append_singleton l a ih =>
      rw [eraseDups_concat]
      split
      · exact ih
      · next ha =>
          rw [← List.concat_eq_append]
          exact ih.concat (mt List.mem_eraseDups.mp ha)

theorem eraseDups_eq_self {l : List α} (h : l.Nodup) : l.eraseDups = l := by
  induction l with
  | nil => rfl
  | cons a rest ih =>
      obtain ⟨ha, hrest⟩ := List.nodup_cons.mp h
      rw [List.eraseDups_cons, List.filter_eq_self.mpr, ih hrest]
      intro b hb
      have hne : b ≠ a := fun hba => ha (hba ▸ hb)
      simpa using hne

/-- A member that occurs before can be left out. -/
theorem eraseDups_insert_of_mem {l m : List α} {a : α} (h : a ∈ l) :
    (l ++ a :: m).eraseDups = (l ++ m).eraseDups := by
  have hskip : (a :: m).removeAll l = m.removeAll l :=
    List.filter_cons_of_neg (by simpa using h)
  rw [List.eraseDups_append, List.eraseDups_append, hskip]

/-- It does not matter whether members are picked before or after. -/
theorem eraseDups_filter (p : α → Bool) (l : List α) :
    (l.filter p).eraseDups = l.eraseDups.filter p := by
  induction l using List.reverseRecOn with
  | nil => rfl
  | append_singleton l a ih =>
      rw [List.filter_append, eraseDups_concat]
      cases hp : p a with
      | false =>
          rw [List.filter_cons_of_neg (by simp [hp]), List.filter_nil,
            List.append_nil, ih]
          split <;> simp [hp]
      | true =>
          rw [List.filter_cons_of_pos hp, List.filter_nil, eraseDups_concat, ih]
          by_cases ha : a ∈ l
          · simp [ha, hp]
          · simp [ha, hp]

/-- Members that a function keeps apart are the same once it is applied. -/
theorem eraseDups_map [BEq β] [LawfulBEq β] {f : α → β} {l : List α}
    (hf : ∀ a ∈ l, ∀ b ∈ l, f a = f b → a = b) :
    (l.map f).eraseDups = l.eraseDups.map f := by
  induction l using List.reverseRecOn with
  | nil => rfl
  | append_singleton l a ih =>
      have hl : ∀ b ∈ l, b ∈ l ++ [a] := fun _ => List.mem_append_left _
      have ha : a ∈ l ++ [a] := List.mem_append_right _ List.mem_cons_self
      have hmem : f a ∈ l.map f ↔ a ∈ l := by
        refine ⟨fun h => ?_, List.mem_map_of_mem⟩
        obtain ⟨b, hb, hfb⟩ := List.mem_map.mp h
        exact hf b (hl b hb) a ha hfb ▸ hb
      rw [List.map_append, List.map_singleton, eraseDups_concat,
        eraseDups_concat, ih fun b hb c hc => hf b (hl b hb) c (hl c hc)]
      by_cases hold : a ∈ l
      · rw [if_pos hold, if_pos (hmem.mpr hold)]
      · rw [if_neg hold, if_neg (mt hmem.mp hold), List.map_append,
          List.map_singleton]

theorem length_eraseDups [DecidableEq α] (l : List α) :
    l.eraseDups.length = l.toFinset.card := by
  rw [← List.toFinset_card_of_nodup (nodup_eraseDups l)]
  congr 1
  ext a
  simp [List.mem_eraseDups]

omit [BEq α] [LawfulBEq α] in
theorem encard_of_nodup {l : List α} (h : l.Nodup) :
    {a | a ∈ l}.encard = l.length := by
  classical
  rw [← List.toFinset_card_of_nodup h, ← Set.encard_coe_eq_coe_finsetCard,
    List.coe_toFinset]

omit [BEq α] [LawfulBEq α] in
/-- Two keys that agree on which members are equal tell apart equally many. -/
theorem card_map_congr [DecidableEq β] [DecidableEq γ] {l : List α}
    {f : α → β} {g : α → γ}
    (h : ∀ a ∈ l, ∀ b ∈ l, f a = f b ↔ g a = g b) :
    (l.map f).toFinset.card = (l.map g).toFinset.card := by
  induction l with
  | nil => rfl
  | cons a rest ih =>
      have hrest := ih fun b hb c hc =>
        h b (List.mem_cons_of_mem _ hb) c (List.mem_cons_of_mem _ hc)
      have hmem : f a ∈ (rest.map f).toFinset ↔
          g a ∈ (rest.map g).toFinset := by
        simp only [List.mem_toFinset, List.mem_map]
        refine exists_congr fun b => and_congr_right fun hb => ?_
        exact h b (List.mem_cons_of_mem _ hb) a List.mem_cons_self
      simp only [List.map_cons, List.toFinset_cons, Finset.card_insert_eq_ite,
        hmem, hrest]

/-- The members of a list, each kept once, stand in the order of the places at
which they occur first. -/
theorem pairwise_idxOf_eraseDups (l : List α) :
    l.eraseDups.Pairwise fun a b => l.idxOf a < l.idxOf b := by
  induction l using List.reverseRecOn with
  | nil => exact .nil
  | append_singleton front a ih =>
      -- Places in the front stay what they are, and a new member is behind it.
      have hplace : ∀ b ∈ front.eraseDups,
          (front ++ [a]).idxOf b = front.idxOf b := fun b hb =>
        List.idxOf_append_of_mem (List.mem_eraseDups.mp hb)
      have hfront : front.eraseDups.Pairwise fun b c =>
          (front ++ [a]).idxOf b < (front ++ [a]).idxOf c := by
        refine ih.imp_of_mem fun hb hc hlt => ?_
        rwa [hplace _ hb, hplace _ hc]
      rw [eraseDups_concat]
      split
      · exact hfront
      · next ha =>
          refine List.pairwise_append.mpr
            ⟨hfront, List.pairwise_singleton _ _, fun b hb c hc => ?_⟩
          obtain rfl := List.mem_singleton.mp hc
          rw [hplace b hb, List.idxOf_append_of_notMem ha]
          have hlt := List.idxOf_lt_length_of_mem (List.mem_eraseDups.mp hb)
          omega

/-- The members of a list without repeats stand at increasing places. -/
theorem pairwise_idxOf {l : List α} (h : l.Nodup) :
    l.Pairwise fun a b => l.idxOf a < l.idxOf b := by
  have hpairwise := pairwise_idxOf_eraseDups l
  rwa [eraseDups_eq_self h] at hpairwise

/-- Members that stand in the order of their keys stand at increasing places
just if their keys increase. -/
theorem idxOf_lt_idxOf_iff {l : List α} {key : α → Nat}
    (h : l.Pairwise fun a b => key a < key b) {a b : α} (ha : a ∈ l)
    (hb : b ∈ l) : l.idxOf a < l.idxOf b ↔ key a < key b := by
  have hkeys {x y : α} (hx : x ∈ l) (hy : y ∈ l)
      (hlt : l.idxOf x < l.idxOf y) : key x < key y := by
    have hkey := List.pairwise_iff_getElem.mp h _ _
      (List.idxOf_lt_length_of_mem hx) (List.idxOf_lt_length_of_mem hy) hlt
    rwa [List.getElem_idxOf, List.getElem_idxOf] at hkey
  refine ⟨hkeys ha hb, fun hlt => ?_⟩
  rcases Nat.lt_trichotomy (l.idxOf a) (l.idxOf b) with hab | heq | hba
  · exact hab
  · obtain rfl := (List.idxOf_inj ha).mp heq
    exact absurd hlt (Nat.lt_irrefl _)
  · exact absurd (hkeys hb ha hba) (Nat.lt_asymm hlt)

omit [BEq α] [LawfulBEq α] in
/-- In a list without repeats nothing stands in front of itself. -/
theorem not_mem_front_of_nodup {before rest : List α} {a : α}
    (h : (before ++ a :: rest).Nodup) : a ∉ before := by
  have hnew := (List.nodup_cons.mp (List.nodup_middle.mp h)).1
  exact fun hmem => hnew (List.mem_append_left _ hmem)

omit [BEq α] [LawfulBEq α] in
/-- What is picked from one list in its order is known by its members. -/
theorem filter_eq_filter_of_mem_iff {l : List α} {p q : α → Bool}
    (h : ∀ a, a ∈ l.filter p ↔ a ∈ l.filter q) : l.filter p = l.filter q := by
  refine List.filter_congr fun a ha => Bool.eq_iff_iff.mpr ?_
  have hmem := h a
  rwa [List.mem_filter, List.mem_filter, and_iff_right ha,
    and_iff_right ha] at hmem

omit [BEq α] [LawfulBEq α] in
theorem find?_key_eq_some [DecidableEq β] {l : List α} {key : α → β} {a : α}
    {k : β} (h : (l.map key).Nodup) :
    l.find? (fun x => key x = k) = some a ↔ a ∈ l ∧ key a = k := by
  constructor
  · intro hfind
    exact ⟨List.mem_of_find?_eq_some hfind,
      by simpa using List.find?_some hfind⟩
  · intro ⟨ha, hkey⟩
    subst hkey
    have hsome : (l.find? fun x => key x = key a).isSome :=
      List.find?_isSome.mpr ⟨a, ha, by simp⟩
    obtain ⟨found, hfound⟩ := Option.isSome_iff_exists.mp hsome
    have hkey : key found = key a := by simpa using List.find?_some hfound
    rw [hfound, Option.some_inj]
    exact List.inj_on_of_nodup_map h (List.mem_of_find?_eq_some hfound) ha hkey

end Flowgraph
