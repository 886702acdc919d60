import Flowgraph.Proofs.Growth

/-!
# The edge that closes a cycle

An edge is put into a graph without cycles. A circle that is there afterwards
takes the new edge. What it does before the new edge and what it does behind it
is made of edges that were there, so together both lead from the end of the new
edge back to its beginning. Hence there is a cycle exactly when there was a way
back; and without one there is still an order of all nodes, in which the new
edge points forward like the others.
-/

namespace Flowgraph

variable {nodes : List Node} {edges before after : List Edge} {edge : Edge}
  {u v : String}

/-- A way along one edge or more leads from one id to another one. The edges are
between nodes that exist; some of them may lead from a node to itself. -/
def HasWay (nodes : List Node) (edges : List Edge) : String → String → Prop :=
  Relation.TransGen fun a b => Joined edges a b ∧
    (∃ node ∈ nodes, node.id = a) ∧ ∃ node ∈ nodes, node.id = b

/-! ## Ways and circles -/

/-- A way between different nodes can do without edges from a node to itself. -/
theorem hasWay_iff (hne : u ≠ v) : HasWay nodes edges u v ↔
    Relation.TransGen (Linked nodes edges) u v := by
  constructor
  · intro hway
    have hpath : Relation.ReflTransGen (Linked nodes edges) u v := by
      refine hway.to_reflTransGen.lift' id fun a b ⟨hjoined, hnodes⟩ => ?_
      by_cases hab : a = b
      · exact hab ▸ .refl
      · exact .single ⟨hjoined, hab, hnodes⟩
    exact (Relation.reflTransGen_iff_eq_or_transGen.mp hpath).resolve_left
      hne.symm
  · refine Relation.TransGen.mono ?_ u v
    rintro a b ⟨hjoined, _, hnodes⟩
    exact ⟨hjoined, hnodes⟩

/-- With one step more, a path is one that was there or it leads to the
beginning of that step, and on from its end. -/
theorem transGen_or_through {α : Type} {r s : α → α → Prop} {x y a b : α}
    (h : ∀ a b, s a b → r a b ∨ a = x ∧ b = y)
    (hab : Relation.TransGen s a b) : Relation.TransGen r a b ∨
      Relation.ReflTransGen r a x ∧ Relation.ReflTransGen r y b := by
  induction hab with
  | single hstep =>
      rcases h _ _ hstep with hold | ⟨rfl, rfl⟩
      · exact .inl (.single hold)
      · exact .inr ⟨.refl, .refl⟩
  | tail _ hstep ih =>
      rcases h _ _ hstep with hold | ⟨rfl, rfl⟩
      · rcases ih with hpath | ⟨hto, hfrom⟩
        · exact .inl (hpath.tail hold)
        · exact .inr ⟨hto, hfrom.tail hold⟩
      -- When the new step is taken again, all since the first time is a detour.
      · rcases ih with hpath | ⟨hto, _⟩
        · exact .inr ⟨hpath.to_reflTransGen, .refl⟩
        · exact .inr ⟨hto, .refl⟩

theorem subset_insert (before after : List Edge) (edge : Edge) :
    before ++ after ⊆ before ++ edge :: after :=
  ((List.Sublist.refl before).append (List.sublist_cons_self edge after)).subset

theorem linked_insert (huv : Linked nodes (before ++ edge :: after) u v) :
    Linked nodes (before ++ after) u v ∨
      u = edge.source.nodeId ∧ v = edge.target.nodeId := by
  obtain ⟨⟨other, hother, hends⟩, hlink⟩ := huv
  rw [List.mem_append, List.mem_cons, or_left_comm] at hother
  rcases hother with rfl | hold
  · exact .inr ⟨hends.1.symm, hends.2.symm⟩
  · exact .inl ⟨⟨other, List.mem_append.mpr hold, hends⟩, hlink⟩

/-- The circles that a new edge makes out of none. -/
theorem onCircle_insert_iff
    (hfree : ∀ id, ¬ OnCircle nodes (before ++ after) id)
    (hnew : Linked nodes (before ++ edge :: after)
      edge.source.nodeId edge.target.nodeId) :
    (∃ id, OnCircle nodes (before ++ edge :: after) id) ↔
      Relation.TransGen (Linked nodes (before ++ after))
        edge.target.nodeId edge.source.nodeId := by
  constructor
  · rintro ⟨id, hcircle⟩
    obtain ⟨hto, hfrom⟩ :=
      (transGen_or_through (fun _ _ => linked_insert) hcircle).resolve_left
        (hfree id)
    exact (Relation.reflTransGen_iff_eq_or_transGen.mp
      (hfrom.trans hto)).resolve_left hnew.2.1
  · intro hback
    have hback' := Relation.TransGen.mono
      (linked_mono (subset_insert before after edge)) _ _ hback
    exact ⟨edge.source.nodeId, hback'.head hnew⟩

/-! ## The order -/

/-- Without a cycle the order has all nodes, along the edges. -/
theorem order_of_no_cycle (h : ¬ (validate nodes edges).Raises .cycle) :
    (wiring nodes edges).order.Perm (nodeIds nodes) ∧
      ∀ u v, Linked nodes edges u v →
        (wiring nodes edges).order.idxOf u <
          (wiring nodes edges).order.idxOf v := by
  have hsound := wiring_sound nodes edges
  rw [raises_cycle_iff, not_not, ← hsound.hasCycle_eq_false_iff_unordered] at h
  have hperm := hsound.order_perm h
  refine ⟨hperm, fun u v huv => ?_⟩
  rw [← feeds_wiring_eq_linked] at huv
  exact hsound.idxOf_lt_of_feeds huv
    (hperm.mem_iff.mpr (hsound.mem_of_leads (.single huv)).2)

/-- Wherever an edge from one node to another one is put into a graph without
cycles, it makes a cycle exactly when there was a way back. If there was none,
the order has all nodes still, the source of the edge before its target. -/
theorem cycle_closed_iff_way_back (nodes : List Node)
    (before after : List Edge) (edge : Edge)
    (hfree : ¬ (validate nodes (before ++ after)).Raises .cycle)
    (hne : edge.source.nodeId ≠ edge.target.nodeId)
    (hsource : ∃ node ∈ nodes, node.id = edge.source.nodeId)
    (htarget : ∃ node ∈ nodes, node.id = edge.target.nodeId) :
    ((validate nodes (before ++ edge :: after)).Raises .cycle ↔
      HasWay nodes (before ++ after)
        edge.target.nodeId edge.source.nodeId) ∧
    (¬ HasWay nodes (before ++ after)
        edge.target.nodeId edge.source.nodeId →
      (wiring nodes (before ++ edge :: after)).order.Perm (nodeIds nodes) ∧
      (wiring nodes (before ++ edge :: after)).order.idxOf
          edge.source.nodeId <
        (wiring nodes (before ++ edge :: after)).order.idxOf
          edge.target.nodeId) := by
  have hnew : Linked nodes (before ++ edge :: after)
      edge.source.nodeId edge.target.nodeId :=
    ⟨⟨edge, by simp, rfl, rfl⟩, hne, hsource, htarget⟩
  rw [raises_cycle_iff, unordered_ne_nil_iff, not_exists] at hfree
  have hcycle : (validate nodes (before ++ edge :: after)).Raises .cycle ↔
      HasWay nodes (before ++ after)
        edge.target.nodeId edge.source.nodeId := by
    rw [raises_cycle_iff, unordered_ne_nil_iff,
      onCircle_insert_iff hfree hnew, hasWay_iff hne.symm]
  refine ⟨hcycle, fun hway => ?_⟩
  obtain ⟨hperm, hforward⟩ := order_of_no_cycle (mt hcycle.mp hway)
  exact ⟨hperm, hforward _ _ hnew⟩

/-- In the diamond there is a way from the start to the join, two edges long,
and none between the nodes on its sides. -/
theorem cycle_closed_iff_way_back_diamond :
    ¬ (validate diamond.nodes
      (diamond.edges.take 2 ++ diamond.edges.drop 2)).Raises .cycle ∧
    HasWay diamond.nodes (diamond.edges.take 2 ++ diamond.edges.drop 2)
      "start" "join" ∧
    ¬ HasWay diamond.nodes (diamond.edges.take 2 ++ diamond.edges.drop 2)
      "right" "left" ∧
    (wiring diamond.nodes (diamond.edges.take 2 ++
      ⟨"new", { nodeId := "left" }, { nodeId := "right" }⟩ ::
        diamond.edges.drop 2)).order.Perm (nodeIds diamond.nodes) := by
  have hfree : ¬ (validate diamond.nodes
      (diamond.edges.take 2 ++ diamond.edges.drop 2)).Raises .cycle := by decide
  have hback := cycle_closed_iff_way_back diamond.nodes
    (diamond.edges.take 2) (diamond.edges.drop 2)
    ⟨"new", { nodeId := "join" }, { nodeId := "start" }⟩
    hfree (by decide) (by decide) (by decide)
  have hacross := cycle_closed_iff_way_back diamond.nodes
    (diamond.edges.take 2) (diamond.edges.drop 2)
    ⟨"new", { nodeId := "left" }, { nodeId := "right" }⟩
    hfree (by decide) (by decide) (by decide)
  have hnone := mt hacross.1.mpr (by decide)
  exact ⟨hfree, hback.1.mp (by decide), hnone, (hacross.2 hnone).1⟩

end Flowgraph
