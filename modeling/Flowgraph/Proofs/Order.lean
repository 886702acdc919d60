import Flowgraph.Proofs.Sorting

/-!
# Orders and circles

The order of a wiring is read off the books of its finished sorting. It lists
vertices at most once, each behind everything that feeds it, and a vertex has a
place in it exactly when all that feed it have one.

What has no place is therefore what some circle leads to, no more and no less:
along a path positions only increase, so nothing on a circle has one, and where
no circle leads to a vertex the induction along the links gives it one. A wiring
without circles has all its vertices in the order.
-/

namespace Flowgraph

namespace Wiring

variable {α : Type} [DecidableEq α] {w : Wiring α} {u v : α}

theorem Sound.order_nodup (h : w.Sound) : w.order.Nodup :=
  (List.nodup_append.mp (consistent_sorted h).nodup).1

theorem Sound.mem_order (h : w.Sound) :
    v ∈ w.order ↔ v ∈ w.vertices ∧ ∀ u, w.Feeds u v → u ∈ w.order := by
  have hready := (consistent_sorted h).ready_iff v
  rw [queue_sorted h, List.append_nil, pending_eq_nil] at hready
  exact hready

theorem Sound.order_subset (h : w.Sound) : w.order ⊆ w.vertices :=
  fun _ hv => (h.mem_order.mp hv).1

/-- A vertex of the order stands behind everything that feeds it. -/
theorem Sound.idxOf_lt_of_feeds (h : w.Sound) (huv : w.Feeds u v)
    (hv : v ∈ w.order) : w.order.idxOf u < w.order.idxOf v := by
  obtain ⟨l, r, hl⟩ := List.append_of_mem hv
  have hu : u ∈ l := (consistent_sorted h).forward l v r hl u huv
  have hnodup := h.order_nodup
  rw [hl, List.nodup_append] at hnodup
  have hvl : v ∉ l := fun hvl => hnodup.2.2 v hvl v (by simp) rfl
  rw [hl, List.idxOf_append_of_mem hu, List.idxOf_append_of_notMem hvl,
    List.idxOf_cons_self, Nat.add_zero]
  exact List.idxOf_lt_length_of_mem hu

/-- What leads to a vertex of the order is in the order before it. -/
theorem Sound.idxOf_lt_of_leads (h : w.Sound) (huv : w.Leads u v)
    (hv : v ∈ w.order) :
    u ∈ w.order ∧ w.order.idxOf u < w.order.idxOf v := by
  induction huv with
  | single huv =>
      exact ⟨(h.mem_order.mp hv).2 u huv, h.idxOf_lt_of_feeds huv hv⟩
  | tail _ hbc ih =>
      have hb := (h.mem_order.mp hv).2 _ hbc
      obtain ⟨hu, hlt⟩ := ih hb
      exact ⟨hu, hlt.trans (h.idxOf_lt_of_feeds hbc hv)⟩

theorem Sound.not_mem_order_of_circle (h : w.Sound) (hcircle : w.Leads v v) :
    v ∉ w.order :=
  fun hv => Nat.lt_irrefl _ (h.idxOf_lt_of_leads hcircle hv).2

/-- The vertices without a place are those that a circle leads to. -/
theorem Sound.mem_unordered (h : w.Sound) :
    v ∈ w.unordered ↔
      v ∈ w.vertices ∧ ∃ u, w.Leads u u ∧ w.Reaches u v := by
  rw [unordered, List.mem_filter, decide_eq_true_eq]
  refine and_congr_right fun hv => ⟨fun hout => ?_, ?_⟩
  · by_contra hno
    have hfree : ∀ u, w.Reaches u v → ¬ w.Leads u u :=
      fun u huv hcircle => hno ⟨u, hcircle, huv⟩
    refine hout (h.induction_back hfree ?_ hv)
    exact fun u hu _ hfeeds => h.mem_order.mpr ⟨hu, hfeeds⟩
  · intro ⟨u, hcircle, huv⟩ hin
    rcases Relation.reflTransGen_iff_eq_or_transGen.mp huv with rfl | huv
    · exact h.not_mem_order_of_circle hcircle hin
    · exact h.not_mem_order_of_circle hcircle (h.idxOf_lt_of_leads huv hin).1

theorem Sound.order_perm (h : w.Sound) (hc : w.hasCycle = false) :
    w.order.Perm w.vertices := by
  rw [hasCycle, decide_eq_false_iff_not, Nat.not_lt] at hc
  exact (h.order_nodup.subperm h.order_subset).perm_of_length_le hc

theorem Sound.hasCycle_eq_false_iff_unordered (h : w.Sound) :
    w.hasCycle = false ↔ w.unordered = [] := by
  rw [unordered, List.filter_eq_nil_iff]
  simp only [decide_eq_true_eq, not_not]
  constructor
  · exact fun hc v hv => (h.order_perm hc).mem_iff.mpr hv
  · intro hsub
    rw [hasCycle, decide_eq_false_iff_not, Nat.not_lt]
    exact h.vertices_nodup.length_le_of_subset hsub

/-- A cycle is found exactly when there is a circle. -/
theorem Sound.hasCycle_eq_false (h : w.Sound) :
    w.hasCycle = false ↔ w.Acyclic := by
  rw [h.hasCycle_eq_false_iff_unordered, List.eq_nil_iff_forall_not_mem]
  constructor
  · intro hnone v hcircle
    have hv := (h.mem_of_leads hcircle).1
    exact hnone v (h.mem_unordered.mpr ⟨hv, v, hcircle, .refl⟩)
  · intro hacyclic v hv
    obtain ⟨u, hcircle, _⟩ := (h.mem_unordered.mp hv).2
    exact hacyclic u hcircle

/-- Going back from a vertex that no circle leads to, one gets to a start. -/
theorem Sound.exists_start (h : w.Sound) (hv : v ∈ w.vertices)
    (hfree : ∀ u, w.Reaches u v → ¬ w.Leads u u) :
    ∃ start ∈ w.starts, w.Reaches start v := by
  refine h.induction_back (P := fun u => ∃ start ∈ w.starts, w.Reaches start u)
    hfree (fun u hu _ hfed => ?_) hv
  by_cases hstart : u ∈ w.starts
  · exact ⟨u, hstart, .refl⟩
  · obtain ⟨t, htu⟩ : ∃ t, w.Feeds t u := by
      by_contra hnone
      exact hstart (mem_starts.mpr ⟨hu, not_exists.mp hnone⟩)
    obtain ⟨start, hmem, hpath⟩ := hfed t htu
    exact ⟨start, hmem, hpath.tail htu⟩

/-- An order has to begin somewhere. -/
theorem Sound.starts_ne_nil (h : w.Sound) (hc : w.hasCycle = false)
    (hne : w.vertices ≠ []) : w.starts ≠ [] := by
  obtain ⟨v, hv⟩ := List.exists_mem_of_ne_nil _ hne
  obtain ⟨start, hstart, _⟩ :=
    h.exists_start hv fun u _ => h.hasCycle_eq_false.mp hc u
  exact List.ne_nil_of_mem hstart

end Wiring

end Flowgraph
