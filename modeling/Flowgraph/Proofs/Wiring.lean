import Flowgraph.Plan.Wiring
import Mathlib.Data.Fintype.Card
import Mathlib.Data.Fintype.EquivFin
import Mathlib.Data.Fintype.Sets
import Mathlib.Logic.Relation

/-!
# Wirings as graphs

The links of a wiring are the arrows of a directed graph, and a path is a chain
of them. What planning may rely on is gathered in `Sound`: vertices and links
are listed once, and a link joins two different vertices.

A wiring is finite. So from a vertex that no circle leads to one can go back
along the links only so often, and `induction_back` turns that into an induction
along the links.
-/

namespace Flowgraph

namespace Wiring

variable {α : Type} {w : Wiring α} {u v : α}

/-- One vertex feeds another one. -/
def Feeds (w : Wiring α) (u v : α) : Prop := (u, v) ∈ w.links

/-- A path along at least one link. -/
abbrev Leads (w : Wiring α) : α → α → Prop := Relation.TransGen w.Feeds

/-- A path along any number of links. -/
abbrev Reaches (w : Wiring α) : α → α → Prop := Relation.ReflTransGen w.Feeds

/-- No path leads back to where it began. -/
def Acyclic (w : Wiring α) : Prop := ∀ v, ¬ w.Leads v v

/-- Nothing is listed twice, and every link joins two different vertices. -/
structure Sound (w : Wiring α) : Prop where
  vertices_nodup : w.vertices.Nodup
  links_nodup : w.links.Nodup
  source_mem : ∀ {u v}, w.Feeds u v → u ∈ w.vertices
  target_mem : ∀ {u v}, w.Feeds u v → v ∈ w.vertices
  ne : ∀ {u v}, w.Feeds u v → u ≠ v

theorem Sound.mem_of_leads (h : w.Sound) (hl : w.Leads u v) :
    u ∈ w.vertices ∧ v ∈ w.vertices := by
  induction hl with
  | single huv => exact ⟨h.source_mem huv, h.target_mem huv⟩
  | tail _ hbc ih => exact ⟨ih.1, h.target_mem hbc⟩

variable [DecidableEq α]

@[simp] theorem mem_successors : v ∈ w.successors u ↔ w.Feeds u v := by
  simp [successors, Feeds]

@[simp] theorem mem_predecessors : u ∈ w.predecessors v ↔ w.Feeds u v := by
  simp [predecessors, Feeds]

theorem Sound.successors_nodup (h : w.Sound) (u : α) :
    (w.successors u).Nodup := by
  refine List.Nodup.map_on ?_ (h.links_nodup.filter _)
  intro ⟨a, b⟩ hab ⟨c, d⟩ hcd heq
  simp only [List.mem_filter, decide_eq_true_eq] at hab hcd
  exact Prod.ext (hab.2.trans hcd.2.symm) heq

theorem Sound.predecessors_nodup (h : w.Sound) (v : α) :
    (w.predecessors v).Nodup := by
  refine List.Nodup.map_on ?_ (h.links_nodup.filter _)
  intro ⟨a, b⟩ hab ⟨c, d⟩ hcd heq
  simp only [List.mem_filter, decide_eq_true_eq] at hab hcd
  exact Prod.ext heq (hab.2.trans hcd.2.symm)

theorem inDegree_eq_zero : w.inDegree v = 0 ↔ ∀ u, ¬ w.Feeds u v := by
  rw [inDegree, List.length_eq_zero_iff, List.eq_nil_iff_forall_not_mem]
  simp only [mem_predecessors]

theorem mem_starts :
    v ∈ w.starts ↔ v ∈ w.vertices ∧ ∀ u, ¬ w.Feeds u v := by
  rw [starts, List.mem_filter, decide_eq_true_eq, inDegree_eq_zero]

/-- Induction along the links over the vertices from which one gets to `v`. It
needs no more than that none of these lies on a circle. -/
theorem Sound.induction_back (h : w.Sound) {P : α → Prop}
    (hfree : ∀ u, w.Reaches u v → ¬ w.Leads u u)
    (hstep : ∀ u ∈ w.vertices, w.Reaches u v →
      (∀ t, w.Feeds t u → P t) → P u)
    (hv : v ∈ w.vertices) : P v := by
  -- Going back is well founded: the vertices are finitely many, and a chain
  -- that returned to one of them would be a circle that leads to `v`.
  let back (a b : {u // u ∈ w.vertices}) : Prop :=
    w.Leads a.1 b.1 ∧ w.Reaches b.1 v
  have : IsTrans _ back := ⟨fun _ _ _ hab hbc => ⟨hab.1.trans hbc.1, hbc.2⟩⟩
  have : Std.Irrefl back := ⟨fun a ha => hfree a.1 ha.2 ha.1⟩
  have hwf : WellFounded back := Finite.wellFounded_of_trans_of_irrefl back
  suffices hall : ∀ a : {u // u ∈ w.vertices}, w.Reaches a.1 v → P a.1 from
    hall ⟨v, hv⟩ .refl
  intro a
  induction a using hwf.induction with
  | _ a ih =>
      intro ha
      refine hstep a.1 a.2 ha fun t ht => ?_
      exact ih ⟨t, h.source_mem ht⟩ ⟨.single ht, ha⟩ (.head ht ha)

end Wiring

end Flowgraph
