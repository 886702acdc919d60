import Flowgraph.Plan.Order
import Flowgraph.Plan.Reach
import Flowgraph.Proofs.Wiring
import Mathlib.Data.Set.List

/-!
# Wirings under other names

Planning compares vertices with each other and does nothing else with them. So
when every vertex gets another name, and no two of them the same, all that is
derived from the wiring is what it was, under the new names and in the same
order: step by step the sorting and the walk of the renamed wiring are the
renamed ones of the original.

A renaming that keeps apart the vertices of a wiring need not keep apart others.
That case is led back to the first: a wiring is the image of one whose vertices
are drawn from a set, and on the set the renaming is injective.
-/

namespace Flowgraph

namespace Wiring

variable {α β γ : Type}

/-- The wiring with its vertices under other names. -/
def map (f : α → β) (w : Wiring α) : Wiring β :=
  ⟨w.vertices.map f, w.links.map (Prod.map f f)⟩

theorem map_map (f : α → β) (g : β → γ) (w : Wiring α) :
    (w.map f).map g = w.map (g ∘ f) := by
  simp only [map, List.map_map, Prod.map_comp_map]

namespace Sorting

/-- The state with all vertices under other names. -/
def map (f : α → β) (s : Sorting α) : Sorting β :=
  ⟨s.waiting.map (Prod.map f id), s.queue.map f, s.order.map f⟩

end Sorting

namespace Walk

/-- The state with all vertices under other names. -/
def map (f : α → β) (s : Walk α) : Walk β :=
  ⟨s.reached.map f, s.queue.map f⟩

end Walk

section Injective

variable [DecidableEq α] [DecidableEq β] {f : α → β}
  (hf : Function.Injective f) (w : Wiring α)
include hf

theorem successors_map (v : α) :
    (w.map f).successors (f v) = (w.successors v).map f := by
  simp only [successors, map, List.filter_map, List.map_map]
  simp [Function.comp_def, hf.eq_iff]

theorem inDegree_map (v : α) : (w.map f).inDegree (f v) = w.inDegree v := by
  simp only [inDegree, predecessors, map, List.filter_map, List.length_map]
  simp [Function.comp_def, hf.eq_iff]

theorem starts_map : (w.map f).starts = w.starts.map f := by
  simp only [starts]
  rw [map, List.filter_map]
  refine congrArg (List.map f) (List.filter_congr fun v _ => ?_)
  simp only [Function.comp_apply]
  rw [← map, inDegree_map hf]

/-! ## Sorting -/

theorem Sorting.count_map (s : Sorting α) (v : α) :
    (s.map f).count (f v) = s.count v := by
  simp only [count, map, List.find?_map, Function.comp_def, Prod.map_fst,
    hf.eq_iff]
  cases s.waiting.find? fun entry => decide (entry.1 = v) with
  | none => rfl
  | some entry => rfl

theorem Sorting.release_map (s : Sorting α) (v : α) :
    (s.map f).release (f v) = (s.release v).map f := by
  have hwaiting : ((s.map f).waiting.map fun e =>
      (e.1, if e.1 = f v then e.2 - 1 else e.2)) =
      (s.waiting.map fun e => (e.1, if e.1 = v then e.2 - 1 else e.2)).map
        (Prod.map f id) := by
    simp [map, Function.comp_def, hf.eq_iff]
  have hcount := count_map hf ⟨s.waiting.map fun e =>
    (e.1, if e.1 = v then e.2 - 1 else e.2), s.queue, s.order⟩ v
  simp only [map] at hcount
  simp only [release, hwaiting]
  simp only [map, hcount]
  split
  · simp
  · rfl

theorem Sorting.foldl_release_map (vs : List α) (s : Sorting α) :
    (vs.map f).foldl release (s.map f) = (vs.foldl release s).map f := by
  induction vs generalizing s with
  | nil => rfl
  | cons v rest ih =>
      rw [List.map_cons, List.foldl_cons, release_map hf, ih, List.foldl_cons]

theorem sortStep_map (s : Sorting α) :
    (w.map f).sortStep (s.map f) = (w.sortStep s).map (Sorting.map f) := by
  obtain ⟨waiting, queue, order⟩ := s
  cases queue with
  | nil => rfl
  | cons v rest =>
      have hfold := Sorting.foldl_release_map hf (w.successors v)
        ⟨waiting, rest, order ++ [v]⟩
      rw [← successors_map hf] at hfold
      simp only [Sorting.map, List.map_append] at hfold
      exact congrArg some hfold

theorem sortUpTo_map (count : Nat) (s : Sorting α) :
    (w.map f).sortUpTo count (s.map f) = (w.sortUpTo count s).map f := by
  induction count generalizing s with
  | zero => rfl
  | succ count ih =>
      rw [sortUpTo, sortStep_map hf, sortUpTo]
      cases w.sortStep s with
      | none => rfl
      | some next => exact ih next

theorem unsorted_map : (w.map f).unsorted = w.unsorted.map f := by
  have hwaiting : (w.vertices.map f).map (fun v => (v, (w.map f).inDegree v)) =
      (w.vertices.map fun v => (v, w.inDegree v)).map (Prod.map f id) := by
    simp [Function.comp_def, inDegree_map hf]
  rw [unsorted, starts_map hf]
  exact congrArg (Sorting.mk · (w.starts.map f) []) hwaiting

theorem order_map : (w.map f).order = w.order.map f := by
  rw [order, sorted, unsorted_map hf, sortUpTo_map hf, map, List.length_map]
  rfl

/-! ## Walking -/

theorem Walk.visit_map (s : Walk α) (v : α) :
    (s.map f).visit (f v) = (s.visit v).map f := by
  simp only [visit, map, List.mem_map_of_injective hf]
  split
  · rfl
  · simp

theorem Walk.foldl_visit_map (vs : List α) (s : Walk α) :
    (vs.map f).foldl visit (s.map f) = (vs.foldl visit s).map f := by
  induction vs generalizing s with
  | nil => rfl
  | cons v rest ih =>
      rw [List.map_cons, List.foldl_cons, visit_map hf, ih, List.foldl_cons]

theorem walkStep_map (s : Walk α) :
    (w.map f).walkStep (s.map f) = (w.walkStep s).map (Walk.map f) := by
  obtain ⟨reached, queue⟩ := s
  cases queue with
  | nil => rfl
  | cons v rest =>
      have hfold := Walk.foldl_visit_map hf (w.successors v) ⟨reached, rest⟩
      rw [← successors_map hf] at hfold
      exact congrArg some hfold

theorem walkUpTo_map (count : Nat) (s : Walk α) :
    (w.map f).walkUpTo count (s.map f) = (w.walkUpTo count s).map f := by
  induction count generalizing s with
  | zero => rfl
  | succ count ih =>
      rw [walkUpTo, walkStep_map hf, walkUpTo]
      cases w.walkStep s with
      | none => rfl
      | some next => exact ih next

theorem reachable_map : (w.map f).reachable = w.reachable.map f := by
  have hwalk := walkUpTo_map hf w w.vertices.length ⟨w.starts, w.starts⟩
  rw [reachable, starts_map hf, map, List.length_map]
  exact congrArg Walk.reached hwalk

theorem unreachable_map : (w.map f).unreachable = w.unreachable.map f := by
  simp only [unreachable, reachable_map hf]
  rw [map, List.filter_map]
  simp only [Function.comp_def, List.mem_map_of_injective hf]

end Injective

/-! ## Names that are kept apart where they occur -/

variable [DecidableEq α] {f : α → β} {w : Wiring α}

/-- A wiring is the image of one that has nothing but its vertices to draw
from. -/
theorem Sound.exists_inner (h : w.Sound)
    (hf : Set.InjOn f {v | v ∈ w.vertices}) :
    ∃ (δ : Type) (_ : DecidableEq δ) (g : δ → α) (inner : Wiring δ),
      Function.Injective g ∧ Function.Injective (f ∘ g) ∧ inner.map g = w := by
  let g (v : {v // v ∈ w.vertices}) : α := v.1
  have hvertices : w.vertices ∈ Set.range (List.map g) := by
    rw [Set.range_list_map]
    exact fun v hv => ⟨⟨v, hv⟩, rfl⟩
  have hlinks : w.links ∈ Set.range (List.map (Prod.map g g)) := by
    rw [Set.range_list_map]
    intro (u, v) huv
    exact ⟨(⟨u, h.source_mem huv⟩, ⟨v, h.target_mem huv⟩), rfl⟩
  obtain ⟨vertices, hvertices⟩ := hvertices
  obtain ⟨links, hlinks⟩ := hlinks
  refine ⟨_, inferInstance, g, ⟨vertices, links⟩, Subtype.val_injective,
    hf.injective, ?_⟩
  rw [map, hvertices, hlinks]

namespace Sound

variable [DecidableEq β] (h : w.Sound)
  (hf : Set.InjOn f {v | v ∈ w.vertices})
include h hf

theorem order_map : (w.map f).order = w.order.map f := by
  obtain ⟨_, _, g, inner, hg, hfg, rfl⟩ := h.exists_inner hf
  rw [map_map, Wiring.order_map hfg, Wiring.order_map hg, List.map_map]

theorem starts_map : (w.map f).starts = w.starts.map f := by
  obtain ⟨_, _, g, inner, hg, hfg, rfl⟩ := h.exists_inner hf
  rw [map_map, Wiring.starts_map hfg, Wiring.starts_map hg, List.map_map]

theorem unreachable_map : (w.map f).unreachable = w.unreachable.map f := by
  obtain ⟨_, _, g, inner, hg, hfg, rfl⟩ := h.exists_inner hf
  rw [map_map, Wiring.unreachable_map hfg, Wiring.unreachable_map hg,
    List.map_map]

theorem successors_map {v : α} (hv : v ∈ w.vertices) :
    (w.map f).successors (f v) = (w.successors v).map f := by
  obtain ⟨_, _, g, inner, hg, hfg, rfl⟩ := h.exists_inner hf
  obtain ⟨v, _, rfl⟩ := List.mem_map.mp hv
  rw [map_map, Wiring.successors_map hg, List.map_map]
  exact Wiring.successors_map hfg inner v

end Sound

end Wiring

end Flowgraph
