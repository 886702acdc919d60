import Flowgraph.Plan.Reach
import Flowgraph.Proofs.Wiring

/-!
# What the walk reaches

The queue of a walk is always the back part of the list of reached vertices: a
vertex enters both together, and what has left the queue has had its links
followed. `Exploring` puts this down with the vertices that are done as a list
of their own. Everything reached is behind a start, and whatever a done vertex
feeds has been reached.

As with sorting, one step is described once, by `walkStep_cases`. When the queue
is empty all reached vertices are done, so they are closed under the links, and
`Sound.mem_reachable` says that they are what paths lead to from the starts.
-/

namespace Flowgraph

namespace Wiring

variable {α : Type} [DecidableEq α] {w : Wiring α} {u v : α}

/-! ## One step -/

/-- Different vertices are visited in turn: the new ones enter both lists. -/
theorem Walk.foldl_visit {vs : List α} (hvs : vs.Nodup) (s : Walk α) :
    vs.foldl visit s =
      ⟨s.reached ++ vs.filter (· ∉ s.reached),
       s.queue ++ vs.filter (· ∉ s.reached)⟩ := by
  induction vs generalizing s with
  | nil => simp
  | cons v rest ih =>
      obtain ⟨hv, hrest⟩ := List.nodup_cons.mp hvs
      rw [List.foldl_cons, ih hrest]
      by_cases hmem : v ∈ s.reached
      · simp [visit, hmem]
      · -- That `v` has been reached does not matter for the others.
        have hothers : rest.filter (· ∉ s.reached ++ [v]) =
            rest.filter (· ∉ s.reached) := by
          refine List.filter_congr fun u hu => ?_
          have hne : u ≠ v := fun huv => hv (huv ▸ hu)
          simp [hne]
        rw [visit, if_neg hmem, hothers]
        simp [hmem]

/-- All that a step does that follows the links of `v`. -/
structure Follows (w : Wiring α) (s : Walk α) (v : α) (s' : Walk α) :
    Prop where
  queue_eq : s.queue = v :: s.queue.tail
  reached_next : s'.reached =
    s.reached ++ (w.successors v).filter (· ∉ s.reached)
  queue_next : s'.queue =
    s.queue.tail ++ (w.successors v).filter (· ∉ s.reached)

/-- A step follows the links of the head of the queue; without one there is no
step. -/
theorem walkStep_cases (h : w.Sound) (s : Walk α) :
    (s.queue = [] ∧ w.walkStep s = none) ∨
      ∃ v s', w.walkStep s = some s' ∧ w.Follows s v s' := by
  obtain ⟨reached, queue⟩ := s
  cases queue with
  | nil => exact .inl ⟨rfl, rfl⟩
  | cons v rest =>
      have hvisit := Walk.foldl_visit (h.successors_nodup v) ⟨reached, rest⟩
      refine .inr ⟨v, _, rfl, rfl, ?_, ?_⟩
      · exact congrArg Walk.reached hvisit
      · exact congrArg Walk.queue hvisit

/-! ## The invariant -/

/-- A walk on its way; the vertices that are done are those whose links have
been followed. -/
structure Exploring (w : Wiring α) (done : List α) (s : Walk α) : Prop where
  reached_eq : s.reached = done ++ s.queue
  nodup : s.reached.Nodup
  starts_subset : w.starts ⊆ s.reached
  origin : ∀ v ∈ s.reached, ∃ start ∈ w.starts, w.Reaches start v
  closed : ∀ u ∈ done, ∀ v, w.Feeds u v → v ∈ s.reached

theorem exploring_begin (h : w.Sound) :
    w.Exploring [] ⟨w.starts, w.starts⟩ where
  reached_eq := rfl
  nodup := h.vertices_nodup.filter _
  starts_subset := List.Subset.refl _
  origin v hv := ⟨v, hv, .refl⟩
  closed _ hu := absurd hu List.not_mem_nil

namespace Exploring

variable {s s' : Walk α} {done : List α}

theorem subset_vertices (h : w.Sound) (hs : w.Exploring done s) :
    s.reached ⊆ w.vertices := by
  intro v hv
  obtain ⟨start, hstart, hpath⟩ := hs.origin v hv
  rcases Relation.reflTransGen_iff_eq_or_transGen.mp hpath with rfl | hleads
  · exact (mem_starts.mp hstart).1
  · exact (h.mem_of_leads hleads).2

/-- A step takes one vertex from the queue to those that are done. -/
theorem step (h : w.Sound) (hs : w.Exploring done s)
    (ht : w.Follows s v s') : w.Exploring (done ++ [v]) s' where
  reached_eq := by
    rw [ht.reached_next, ht.queue_next, hs.reached_eq, ht.queue_eq]
    simp
  nodup := by
    rw [ht.reached_next, List.nodup_append]
    refine ⟨hs.nodup, (h.successors_nodup v).filter _, ?_⟩
    rintro a hold b hnew rfl
    rw [List.mem_filter, decide_eq_true_eq] at hnew
    exact hnew.2 hold
  starts_subset := by
    rw [ht.reached_next]
    exact List.subset_append_of_subset_left _ hs.starts_subset
  origin u hu := by
    rw [ht.reached_next, List.mem_append] at hu
    rcases hu with hold | hnew
    · exact hs.origin u hold
    · have hfeeds := mem_successors.mp (List.mem_of_mem_filter hnew)
      have hv : v ∈ s.reached := by
        rw [hs.reached_eq, ht.queue_eq]
        simp
      obtain ⟨start, hstart, hpath⟩ := hs.origin v hv
      exact ⟨start, hstart, hpath.tail hfeeds⟩
  closed u hu x hux := by
    rw [ht.reached_next, List.mem_append]
    rcases List.mem_append.mp hu with hdone | hlast
    · exact .inl (hs.closed u hdone x hux)
    · obtain rfl := List.mem_singleton.mp hlast
      by_cases hx : x ∈ s.reached
      · exact .inl hx
      · exact .inr (List.mem_filter.mpr
          ⟨mem_successors.mpr hux, decide_eq_true hx⟩)

/-- Steps are made as long as there is a vertex in the queue, one vertex is done
with each of them, and they leave the walk one on its way. -/
theorem walkUpTo (h : w.Sound) (count : Nat) :
    ∀ {done : List α} {s : Walk α}, w.Exploring done s →
      ∃ done', w.Exploring done' (w.walkUpTo count s) ∧
        ((w.walkUpTo count s).queue = [] ∨
          done'.length = done.length + count) := by
  induction count with
  | zero => exact fun {done} _ hs => ⟨done, hs, .inr rfl⟩
  | succ count ih =>
      intro done s hs
      rw [Wiring.walkUpTo]
      rcases w.walkStep_cases h s with ⟨hqueue, hnone⟩ | ⟨v, s', hsome, ht⟩
      · rw [hnone]
        exact ⟨done, hs, .inl hqueue⟩
      · rw [hsome]
        obtain ⟨done', hs', hend⟩ := ih (hs.step h ht)
        refine ⟨done', hs', hend.imp_right fun hlen => ?_⟩
        rw [hlen, List.length_append, List.length_singleton]
        omega

end Exploring

/-! ## The whole walk -/

/-- The steps that are allowed suffice: in the end all that was reached is
done. -/
theorem Sound.exploring_end (h : w.Sound) : w.Exploring w.reachable
    (w.walkUpTo w.vertices.length ⟨w.starts, w.starts⟩) := by
  obtain ⟨done, hs, hend⟩ :=
    (exploring_begin h).walkUpTo h w.vertices.length
  have hqueue : (w.walkUpTo w.vertices.length
      ⟨w.starts, w.starts⟩).queue = [] := by
    refine hend.elim id fun hlen => ?_
    have hle := hs.nodup.length_le_of_subset (hs.subset_vertices h)
    rw [hs.reached_eq, List.length_append, hlen, List.length_nil] at hle
    exact List.length_eq_zero_iff.mp (by omega)
  have hdone : w.reachable = done := by
    rw [reachable, hs.reached_eq, hqueue, List.append_nil]
  exact hdone ▸ hs

/-- Reached is what a path leads to from a start. -/
theorem Sound.mem_reachable (h : w.Sound) :
    v ∈ w.reachable ↔ ∃ start ∈ w.starts, w.Reaches start v := by
  have hs := h.exploring_end
  refine ⟨hs.origin v, ?_⟩
  rintro ⟨start, hstart, hpath⟩
  induction hpath with
  | refl => exact hs.starts_subset hstart
  | tail _ hfeeds reached => exact hs.closed _ reached _ hfeeds

theorem Sound.mem_unreachable (h : w.Sound) : v ∈ w.unreachable ↔
    v ∈ w.vertices ∧ ¬ ∃ start ∈ w.starts, w.Reaches start v := by
  rw [unreachable, List.mem_filter, decide_eq_true_eq, h.mem_reachable]

end Wiring

end Flowgraph
