import Flowgraph.Proofs.Alike
import Flowgraph.Proofs.Ids
import Mathlib.Data.List.Flatten

/-!
# What is seen of edges

A node and a port on either side are the ends of an edge. Required inputs,
limited outputs and planning look at the ends of the edges that connect and at
nothing else: not at the ids of edges, nor at how a port is named. So all three
can be written down in terms of `connections`, the list of these ends.

From there it is a matter of membership. With more ends in the list no input
loses an edge, no output loses a connection and no node loses one that feeds it;
with the same ends, listed in whatever order and however often, everything stays
as it is, apart from the order in which a node feeds others.
-/

namespace Flowgraph

variable {nodes : List Node} {xs ys edges : List Edge} {u v : String}

/-- The node and the port on either side of an edge. -/
def Edge.ends (edge : Edge) : (String × String) × (String × String) :=
  ((edge.source.nodeId, edge.sourcePort), (edge.target.nodeId, edge.targetPort))

/-- The text that is made of ends. -/
def connectionText (ends : (String × String) × (String × String)) : String :=
  ends.1.1 ++ ":" ++ ends.1.2 ++ "->" ++ ends.2.1 ++ ":" ++ ends.2.2

theorem connectionText_ends (edge : Edge) :
    connectionText edge.ends = edge.connection := rfl

/-- The ends of the edges that connect. -/
def connections (nodes : List Node) (edges : List Edge) :
    List ((String × String) × (String × String)) :=
  (connecting nodes edges).map Edge.ends

theorem connections_append (xs ys : List Edge) : connections nodes (xs ++ ys) =
    connections nodes xs ++ connections nodes ys := by
  rw [connections, connecting, List.filter_append, List.map_append]
  rfl

theorem connections_subset (h : xs ⊆ ys) :
    connections nodes xs ⊆ connections nodes ys :=
  List.map_subset _ (List.filter_subset _ h)

/-! ## The checks in terms of connections -/

/-- Whether ends are at two different nodes. -/
def endsConnect (nodes : List Node)
    (ends : (String × String) × (String × String)) : Bool :=
  !(ends.1.1 == ends.2.1) && (findNode? nodes ends.1.1).isSome &&
    (findNode? nodes ends.2.1).isSome

theorem connections_eq (nodes : List Node) (edges : List Edge) :
    connections nodes edges =
      (edges.map Edge.ends).filter (endsConnect nodes) := by
  rw [List.filter_map]
  rfl

theorem inputIssues_eq (nodes : List Node) (edges : List Edge) :
    inputIssues nodes edges = (firstNodes nodes).flatMap fun node =>
      (node.kind.inputs.filter fun port => port.required &&
        !(connections nodes edges).any (·.2 == (node.id, port.id))).map
          node.missingInput := by
  simp only [connections, List.any_map]
  rfl

theorem connectionCount_eq (edges : List Edge) (node : Node) (port : Port) :
    connectionCount (connecting nodes edges) node port =
      (((connections nodes edges).filter
        (·.1 == (node.id, port.id))).map connectionText).toFinset.card := by
  rw [connectionCount, length_eraseDups, connections, List.filter_map,
    List.map_map]
  rfl

theorem links_wiring (nodes : List Node) (edges : List Edge) :
    (wiring nodes edges).links = ((connections nodes edges).map fun ends =>
      (ends.1.1, ends.2.1)).eraseDups := by
  rw [connections, List.map_map]
  rfl

theorem feeds_iff_connections : (wiring nodes edges).Feeds u v ↔
    ∃ ends ∈ connections nodes edges, (ends.1.1, ends.2.1) = (u, v) := by
  rw [Wiring.Feeds, links_wiring, List.mem_eraseDups, List.mem_map]

theorem wiring_eq_of_links
    (h : (wiring nodes xs).links = (wiring nodes ys).links) :
    wiring nodes xs = wiring nodes ys := by
  rw [Wiring.mk.injEq]
  exact ⟨rfl, h⟩

/-! ## More connections -/

section More

variable (h : connections nodes xs ⊆ connections nodes ys)
include h

theorem inputIssues_sublist :
    (inputIssues nodes ys).Sublist (inputIssues nodes xs) := by
  rw [inputIssues_eq, inputIssues_eq]
  refine List.Sublist.flatMap_right _ fun node _ => List.Sublist.map _ ?_
  refine List.monotone_filter_right _ fun port hport => ?_
  simp only [Bool.and_eq_true, Bool.not_eq_true', List.any_eq_false] at hport ⊢
  exact ⟨hport.1, fun ends hends => hport.2 ends (h hends)⟩

theorem connectionCount_le (node : Node) (port : Port) :
    connectionCount (connecting nodes xs) node port ≤
      connectionCount (connecting nodes ys) node port := by
  rw [connectionCount_eq, connectionCount_eq]
  refine Finset.card_le_card fun text htext => ?_
  rw [List.mem_toFinset] at htext ⊢
  exact List.map_subset _ (List.filter_subset _ h) htext

theorem feeds_of_subset (huv : (wiring nodes xs).Feeds u v) :
    (wiring nodes ys).Feeds u v := by
  rw [feeds_iff_connections] at huv ⊢
  obtain ⟨ends, hends, heq⟩ := huv
  exact ⟨ends, h hends, heq⟩

theorem starts_sublist :
    (wiring nodes ys).starts.Sublist (wiring nodes xs).starts := by
  refine List.monotone_filter_right _ fun v hv => ?_
  rw [decide_eq_true_eq, Wiring.inDegree_eq_zero] at hv ⊢
  exact fun u huv => hv u (feeds_of_subset h huv)

end More

/-! ## The same connections -/

section Same

variable (h : connections nodes xs ⊆ connections nodes ys)
  (h' : connections nodes ys ⊆ connections nodes xs)
include h h'

theorem inputIssues_congr : inputIssues nodes xs = inputIssues nodes ys :=
  (inputIssues_sublist h').antisymm (inputIssues_sublist h)

theorem outputIssues_congr : outputIssues nodes xs = outputIssues nodes ys := by
  have hcount (node : Node) (port : Port) :
      connectionCount (connecting nodes xs) node port =
        connectionCount (connecting nodes ys) node port :=
    Nat.le_antisymm (connectionCount_le h node port)
      (connectionCount_le h' node port)
  simp only [outputIssues, hcount]

theorem alike_of_connections :
    (wiring nodes xs).Alike (wiring nodes ys) where
  mem_vertices _ := Iff.rfl
  feeds_iff _ _ := ⟨feeds_of_subset h, feeds_of_subset h'⟩

end Same

end Flowgraph
