import Flowgraph.Proofs.Distinct
import Flowgraph.Proofs.Order
import Flowgraph.Proofs.Reach

/-!
# Wirings that join alike

Where a vertex belongs, among the starts, in the order or behind it, within
reach or out of it, is a matter of paths. So wirings that have the same vertices
and the same links agree on it, in whatever order they list them: `Alike` says
no more than that, and all lists of such wirings are equal up to their order.
The lists that keep to the order of the vertices are equal where the vertices
are.
-/

namespace Flowgraph

namespace Wiring

variable {α : Type} {w w' : Wiring α} {v : α}

/-- The same vertices, and the same links between them. -/
structure Alike (w w' : Wiring α) : Prop where
  mem_vertices : ∀ v, v ∈ w.vertices ↔ v ∈ w'.vertices
  feeds_iff : ∀ u v, w.Feeds u v ↔ w'.Feeds u v

namespace Alike

theorem feeds_eq (h : Alike w w') : w.Feeds = w'.Feeds :=
  funext₂ fun u v => propext (h.feeds_iff u v)

variable [DecidableEq α] (h : Alike w w') (hw : w.Sound) (hw' : w'.Sound)
include h

theorem mem_starts : v ∈ w.starts ↔ v ∈ w'.starts := by
  rw [Wiring.mem_starts, Wiring.mem_starts, h.mem_vertices, h.feeds_eq]

include hw hw'

theorem mem_unordered : v ∈ w.unordered ↔ v ∈ w'.unordered := by
  rw [hw.mem_unordered, hw'.mem_unordered, h.mem_vertices, Leads, Reaches,
    h.feeds_eq]

theorem mem_unreachable : v ∈ w.unreachable ↔ v ∈ w'.unreachable := by
  rw [hw.mem_unreachable, hw'.mem_unreachable, h.mem_vertices, Reaches,
    h.feeds_eq]
  simp only [h.mem_starts]

theorem hasCycle_eq : w.hasCycle = w'.hasCycle := by
  rw [Bool.eq_iff_iff, ← not_iff_not, Bool.not_eq_true, Bool.not_eq_true,
    hw.hasCycle_eq_false, hw'.hasCycle_eq_false, Acyclic, Acyclic, Leads,
    h.feeds_eq]

/-! Lists of the same members, none of them twice, differ only in their
order. -/

theorem successors_perm (v : α) :
    (w.successors v).Perm (w'.successors v) :=
  (List.perm_ext_iff_of_nodup (hw.successors_nodup v)
    (hw'.successors_nodup v)).mpr fun u => by
      rw [mem_successors, mem_successors, h.feeds_iff]

theorem starts_perm : w.starts.Perm w'.starts :=
  (List.perm_ext_iff_of_nodup (hw.vertices_nodup.filter _)
    (hw'.vertices_nodup.filter _)).mpr fun _ => h.mem_starts

theorem unreachable_perm : w.unreachable.Perm w'.unreachable :=
  (List.perm_ext_iff_of_nodup (hw.vertices_nodup.filter _)
    (hw'.vertices_nodup.filter _)).mpr fun _ => h.mem_unreachable hw hw'

/-! With the vertices in the same order, what is picked from them is too. -/

variable (hvertices : w.vertices = w'.vertices)
include hvertices

omit hw hw' in
theorem starts_eq : w.starts = w'.starts := by
  have hmem (v : α) : v ∈ w.starts ↔ v ∈ w'.starts := h.mem_starts
  simp only [starts, hvertices] at hmem ⊢
  exact filter_eq_filter_of_mem_iff hmem

theorem unordered_eq : w.unordered = w'.unordered := by
  have hmem (v : α) : v ∈ w.unordered ↔ v ∈ w'.unordered :=
    h.mem_unordered hw hw'
  simp only [unordered, hvertices] at hmem ⊢
  exact filter_eq_filter_of_mem_iff hmem

theorem unreachable_eq : w.unreachable = w'.unreachable := by
  have hmem (v : α) : v ∈ w.unreachable ↔ v ∈ w'.unreachable :=
    h.mem_unreachable hw hw'
  simp only [unreachable, hvertices] at hmem ⊢
  exact filter_eq_filter_of_mem_iff hmem

end Alike

end Wiring

end Flowgraph
