import Flowgraph.Plan.Order
import Flowgraph.Proofs.Wiring

/-!
# What holds while a wiring is sorted

A sorting keeps three books: for each vertex how many it waits for, the queue of
ready vertices, and the order so far. `Consistent` ties them together. The count
of a vertex is the number of vertices that feed it and have no place in the
order yet, a vertex is ready or in the order exactly when this number is zero,
and the order never puts a vertex before one that feeds it.

One step is described once, by `sortStep_cases`: it takes the head of the queue,
lowers the count of everything the head feeds, and appends to the queue what
thereby comes down to zero, in the order of the links. The invariant and all
that follows from it are derived from this description alone.
-/

namespace Flowgraph

namespace Wiring

variable {α : Type} [DecidableEq α] {w : Wiring α}

namespace Sorting

/-! ## Releasing vertices -/

theorem count_release (s : Sorting α) (u v : α) :
    (s.release v).count u = if u = v then s.count u - 1 else s.count u := by
  have hcount : ∀ queue, count ⟨s.waiting.map fun e =>
      (e.1, if e.1 = v then e.2 - 1 else e.2), queue, s.order⟩ u =
        if u = v then s.count u - 1 else s.count u := by
    intro queue
    simp only [count]
    induction s.waiting with
    | nil => simp
    | cons entry rest ih =>
        obtain ⟨x, n⟩ := entry
        simp only [List.map_cons, List.find?_cons]
        by_cases hx : x = u
        · subst hx; simp
        · simpa [hx] using ih
  simp only [release]
  split
  · exact hcount _
  · exact hcount _

theorem queue_release (s : Sorting α) (v : α) :
    (s.release v).queue =
      if s.count v ≤ 1 then s.queue ++ [v] else s.queue := by
  have hcount := count_release s v v
  rw [if_pos rfl] at hcount
  by_cases hle : s.count v ≤ 1
  · rw [if_pos hle]
    simp only [release] at hcount ⊢
    split
    · rfl
    · next hne =>
        rw [if_neg hne] at hcount
        exact absurd (hcount.trans (by omega)) hne
  · rw [if_neg hle]
    simp only [release] at hcount ⊢
    split
    · next heq =>
        rw [if_pos heq] at hcount
        have hzero : s.count v - 1 = 0 := hcount.symm.trans heq
        omega
    · rfl

theorem order_release (s : Sorting α) (v : α) :
    (s.release v).order = s.order := by
  simp only [release]
  split <;> rfl

theorem names_release (s : Sorting α) (v : α) :
    (s.release v).waiting.map (·.1) = s.waiting.map (·.1) := by
  have hnames : (s.waiting.map fun e =>
      (e.1, if e.1 = v then e.2 - 1 else e.2)).map (·.1) =
        s.waiting.map (·.1) := by
    rw [List.map_map]
    rfl
  simp only [release]
  split
  · exact hnames
  · exact hnames

/-- Releasing different vertices one after another: each count goes down by
one, and the vertices with nothing left to wait for join the queue in turn. -/
theorem foldl_release {vs : List α} (hvs : vs.Nodup) (s : Sorting α) :
    (∀ u, (vs.foldl release s).count u =
        if u ∈ vs then s.count u - 1 else s.count u) ∧
      (vs.foldl release s).queue = s.queue ++ vs.filter (s.count · ≤ 1) ∧
      (vs.foldl release s).order = s.order ∧
      (vs.foldl release s).waiting.map (·.1) = s.waiting.map (·.1) := by
  induction vs generalizing s with
  | nil => simp
  | cons v rest ih =>
      obtain ⟨hv, hrest⟩ := List.nodup_cons.mp hvs
      obtain ⟨hcount, hqueue, horder, hnames⟩ := ih hrest (s.release v)
      -- Releasing `v` leaves the counts of the other vertices alone.
      have hother : ∀ u ∈ rest, (s.release v).count u = s.count u := by
        intro u hu
        rw [count_release, if_neg (fun huv : u = v => hv (huv ▸ hu))]
      refine ⟨fun u => ?_, ?_, ?_, ?_⟩
      · rw [List.foldl_cons, hcount, count_release]
        by_cases huv : u = v
        · subst huv; simp [hv]
        · simp [huv]
      · rw [List.foldl_cons, hqueue, queue_release, List.filter_cons,
          List.filter_congr fun u hu => by rw [hother u hu]]
        by_cases hle : s.count v ≤ 1
        · simp [hle]
        · simp [hle]
      · rw [List.foldl_cons, horder, order_release]
      · rw [List.foldl_cons, hnames, names_release]

end Sorting

/-! ## One step -/

/-- All that a step does that takes `v`. -/
structure Takes (w : Wiring α) (s : Sorting α) (v : α) (s' : Sorting α) :
    Prop where
  queue_eq : s.queue = v :: s.queue.tail
  order_next : s'.order = s.order ++ [v]
  queue_next : s'.queue =
    s.queue.tail ++ (w.successors v).filter (s.count · ≤ 1)
  count_next : ∀ u, s'.count u =
    if u ∈ w.successors v then s.count u - 1 else s.count u
  names_next : s'.waiting.map (·.1) = s.waiting.map (·.1)

/-- A step takes the head of the queue; without one there is no step. -/
theorem sortStep_cases (h : w.Sound) (s : Sorting α) :
    (s.queue = [] ∧ w.sortStep s = none) ∨
      ∃ v s', w.sortStep s = some s' ∧ w.Takes s v s' := by
  obtain ⟨waiting, queue, order⟩ := s
  cases queue with
  | nil => exact .inl ⟨rfl, rfl⟩
  | cons v rest =>
      obtain ⟨hcount, hqueue, horder, hnames⟩ := Sorting.foldl_release
        (h.successors_nodup v) ⟨waiting, rest, order ++ [v]⟩
      exact .inr ⟨v, _, rfl, rfl, horder, hqueue, hcount, hnames⟩

/-! ## The invariant -/

/-- The vertices that `v` still waits for. -/
def pending (w : Wiring α) (order : List α) (v : α) : List α :=
  (w.predecessors v).filter (· ∉ order)

theorem mem_pending {order : List α} {u v : α} :
    u ∈ w.pending order v ↔ w.Feeds u v ∧ u ∉ order := by
  simp [pending]

theorem pending_eq_nil {order : List α} {v : α} :
    w.pending order v = [] ↔ ∀ u, w.Feeds u v → u ∈ order := by
  simp [List.eq_nil_iff_forall_not_mem, mem_pending]

theorem Sound.pending_concat (h : w.Sound) (order : List α) (u v : α) :
    w.pending (order ++ [v]) u = (w.pending order u).erase v := by
  have hnodup : (w.pending order u).Nodup := (h.predecessors_nodup u).filter _
  rw [hnodup.erase_eq_filter, pending, pending, List.filter_filter]
  refine List.filter_congr fun x _ => ?_
  by_cases hx : x = v
  · simp [hx]
  · simp [hx]

/-- The books of a sorting agree with each other and with the wiring. -/
structure Consistent (w : Wiring α) (s : Sorting α) : Prop where
  names_eq : s.waiting.map (·.1) = w.vertices
  count_eq : ∀ v, s.count v = (w.pending s.order v).length
  ready_iff : ∀ v, v ∈ s.order ++ s.queue ↔
    v ∈ w.vertices ∧ w.pending s.order v = []
  nodup : (s.order ++ s.queue).Nodup
  forward : ∀ l v r, s.order = l ++ v :: r → ∀ u, w.Feeds u v → u ∈ l

theorem consistent_unsorted (h : w.Sound) : w.Consistent w.unsorted where
  names_eq := by simp [unsorted, Function.comp_def]
  count_eq v := by
    have hpending : w.pending w.unsorted.order v = w.predecessors v := by
      simp [pending, unsorted]
    rw [hpending]
    simp only [Sorting.count, unsorted, List.find?_map, Function.comp_def]
    by_cases hv : v ∈ w.vertices
    · cases hfind : w.vertices.find? fun x => decide (x = v) with
      | none =>
          have hall := List.find?_eq_none.mp hfind v hv
          simp at hall
      | some x =>
          have hx : x = v := by simpa using List.find?_some hfind
          subst hx
          rfl
    · have hnone : w.vertices.find? (fun x => decide (x = v)) = none := by
        refine List.find?_eq_none.mpr fun x hx => ?_
        have hne : x ≠ v := fun hxv => hv (hxv ▸ hx)
        simpa using hne
      rw [hnone]
      refine (inDegree_eq_zero.mpr fun u hu => ?_).symm
      exact hv (h.target_mem hu)
  ready_iff v := by
    simp [unsorted, mem_starts, pending_eq_nil]
  nodup := h.vertices_nodup.filter _
  forward l v r hl := by simp [unsorted] at hl

namespace Consistent

variable {s s' : Sorting α} {v : α}

/-- What the head of the queue waits for has been taken, itself has not. -/
theorem head (hs : w.Consistent s) (ht : w.Takes s v s') :
    v ∈ w.vertices ∧ w.pending s.order v = [] ∧ v ∉ s.order := by
  have hmem : v ∈ s.order ++ s.queue := by rw [ht.queue_eq]; simp
  have hnodup := hs.nodup
  rw [ht.queue_eq, List.nodup_append] at hnodup
  obtain ⟨hv, hpending⟩ := (hs.ready_iff v).mp hmem
  exact ⟨hv, hpending, fun hvo => hnodup.2.2 v hvo v (by simp) rfl⟩

/-- Only what the head feeds waits for it. -/
theorem mem_pending_head (hs : w.Consistent s) (ht : w.Takes s v s') {u : α} :
    v ∈ w.pending s.order u ↔ u ∈ w.successors v := by
  rw [mem_pending, mem_successors, and_iff_left (hs.head ht).2.2]

/-- A released vertex enters the queue only if it waited for nothing else, and
then it was not ready before. -/
theorem length_pending_of_released (hs : w.Consistent s) (ht : w.Takes s v s')
    {u : α} (hu : u ∈ (w.successors v).filter (s.count · ≤ 1)) :
    (w.pending s.order u).length = 1 := by
  rw [List.mem_filter, decide_eq_true_eq, hs.count_eq] at hu
  have hpos := List.length_pos_of_mem ((hs.mem_pending_head ht).mpr hu.1)
  omega

/-- A step keeps the books consistent. -/
theorem step (h : w.Sound) (hs : w.Consistent s) (ht : w.Takes s v s') :
    w.Consistent s' where
  names_eq := ht.names_next.trans hs.names_eq
  count_eq u := by
    rw [ht.count_next, ht.order_next, h.pending_concat, hs.count_eq]
    by_cases hu : u ∈ w.successors v
    · rw [if_pos hu, List.length_erase_of_mem ((hs.mem_pending_head ht).mpr hu)]
    · rw [if_neg hu, List.erase_of_not_mem fun hmem =>
        hu ((hs.mem_pending_head ht).mp hmem)]
  ready_iff u := by
    -- In terms of the old books: `u` was ready, or it waited for `v` alone.
    have hold : u ∈ s'.order ++ s'.queue ↔ u ∈ s.order ++ s.queue ∨
        u ∈ (w.successors v).filter (s.count · ≤ 1) := by
      rw [ht.order_next, ht.queue_next, ht.queue_eq]
      simp only [List.mem_append, List.mem_cons, List.tail_cons,
        List.not_mem_nil, or_false, or_assoc]
    rw [hold, ht.order_next, h.pending_concat, hs.ready_iff]
    constructor
    · intro hready
      rcases hready with ⟨hmem, hnil⟩ | hnew
      · exact ⟨hmem, by rw [hnil]; rfl⟩
      · have hsucc := List.mem_of_mem_filter hnew
        have hone := hs.length_pending_of_released ht hnew
        refine ⟨h.target_mem (mem_successors.mp hsucc), ?_⟩
        rw [← List.length_eq_zero_iff,
          List.length_erase_of_mem ((hs.mem_pending_head ht).mpr hsucc), hone]
    · intro ⟨hmem, hnil⟩
      by_cases hu : u ∈ w.successors v
      · have hin := (hs.mem_pending_head ht).mpr hu
        have hlen := List.length_erase_of_mem hin
        rw [hnil, List.length_nil] at hlen
        refine .inr (List.mem_filter.mpr ⟨hu, ?_⟩)
        rw [decide_eq_true_eq, hs.count_eq]
        omega
      · rw [List.erase_of_not_mem fun hin =>
          hu ((hs.mem_pending_head ht).mp hin)] at hnil
        exact .inl ⟨hmem, hnil⟩
  nodup := by
    have hall : s'.order ++ s'.queue = (s.order ++ s.queue) ++
        (w.successors v).filter (s.count · ≤ 1) := by
      rw [ht.order_next, ht.queue_next, ht.queue_eq]
      simp
    rw [hall, List.nodup_append]
    refine ⟨hs.nodup, (h.successors_nodup v).filter _, ?_⟩
    intro u hold x hnew hux
    subst hux
    have hone := hs.length_pending_of_released ht hnew
    rw [((hs.ready_iff u).mp hold).2] at hone
    exact absurd hone (by simp)
  forward l x r hl u hux := by
    rw [ht.order_next] at hl
    rcases List.eq_nil_or_concat r with rfl | ⟨r', y, rfl⟩
    · obtain ⟨rfl, hx⟩ := List.append_inj' hl rfl
      obtain rfl : v = x := by simpa using hx
      exact pending_eq_nil.mp (hs.head ht).2.1 u hux
    · have hassoc : s.order ++ [v] = (l ++ x :: r') ++ [y] := by simpa using hl
      exact hs.forward l x r' (List.append_inj' hassoc rfl).1 u hux

end Consistent

/-! ## Whole runs -/

theorem Consistent.sortUpTo (h : w.Sound) (count : Nat) :
    ∀ {s : Sorting α}, w.Consistent s → w.Consistent (w.sortUpTo count s) := by
  induction count with
  | zero => exact id
  | succ count ih =>
      intro s hs
      rw [Wiring.sortUpTo]
      rcases w.sortStep_cases h s with ⟨_, hnone⟩ | ⟨v, s', hsome, ht⟩
      · rw [hnone]; exact hs
      · rw [hsome]; exact ih (hs.step h ht)

/-- Steps are made as long as a vertex is ready. -/
theorem sortUpTo_progress (h : w.Sound) (count : Nat) : ∀ s : Sorting α,
    (w.sortUpTo count s).queue = [] ∨
      (w.sortUpTo count s).order.length = s.order.length + count := by
  induction count with
  | zero => exact fun s => .inr rfl
  | succ count ih =>
      intro s
      rw [Wiring.sortUpTo]
      rcases w.sortStep_cases h s with ⟨hqueue, hnone⟩ | ⟨v, s', hsome, ht⟩
      · rw [hnone]; exact .inl hqueue
      · rw [hsome]
        refine (ih s').imp_right fun hlen => hlen.trans ?_
        rw [ht.order_next, List.length_append, List.length_singleton]
        omega

theorem consistent_sorted (h : w.Sound) : w.Consistent w.sorted :=
  (consistent_unsorted h).sortUpTo h _

/-- The steps that are allowed suffice: nothing is left in the queue. -/
theorem queue_sorted (h : w.Sound) : w.sorted.queue = [] := by
  rcases sortUpTo_progress h w.vertices.length w.unsorted with hnil | hlen
  · exact hnil
  · -- All vertices are in the order, which leaves none for the queue.
    have hs := consistent_sorted h
    have hfull : w.sorted.order.length = w.vertices.length :=
      hlen.trans (Nat.zero_add _)
    have hle := hs.nodup.length_le_of_subset
      fun v hv => ((hs.ready_iff v).mp hv).1
    rw [List.length_append] at hle
    exact List.length_eq_zero_iff.mp (by omega)

end Wiring

end Flowgraph
