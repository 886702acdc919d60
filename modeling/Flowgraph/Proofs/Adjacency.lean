import Flowgraph.Proofs.Diagnosis
import Flowgraph.Proofs.Ends
import Flowgraph.Proofs.PortReports
import Mathlib.Logic.Function.Basic

/-!
# The tables of planning

Planning can be done with two tables: what each node feeds, and by how many it
is fed. They are filled by taking the edges one after another. An edge that
leads from one node to another one, and to one that its source does not feed so
far, makes an entry in either table; every other edge is passed over. So the
counts in the one table never lose touch with the entries in the other.

Here the tables are shown to be those of the wiring: `take_tables` is the step,
one more edge in the list, and the whole follows by induction from the end of
the edges. What the wiring says in terms of edges is then what the tables say,
and the edges that were passed over can be left out from the start, since the
wiring is the same without them.
-/

namespace Flowgraph

variable {nodes : List Node} {edges front back : List Edge} {edge : Edge}

/-! ## Tables -/

/-- What each node feeds, in order, and how many nodes feed it. -/
@[ext]
structure PlanTables where
  successors : String → List String
  inDegree : String → Nat

namespace PlanTables

/-- Tables without entries. -/
def blank : PlanTables := ⟨fun _ => [], fun _ => 0⟩

/-- Takes an edge: a link that is new is entered in both tables. -/
def take (nodes : List Node) (tables : PlanTables) (edge : Edge) : PlanTables :=
  let source := edge.source.nodeId
  let target := edge.target.nodeId
  if edge.connects nodes ∧ target ∉ tables.successors source then
    { successors := Function.update tables.successors source
        (tables.successors source ++ [target])
      inDegree := Function.update tables.inDegree target
        (tables.inDegree target + 1) }
  else tables

end PlanTables

/-- The tables of a wiring. -/
def Wiring.tables (w : Wiring String) : PlanTables := ⟨w.successors, w.inDegree⟩

/-- The nodes that an edge leads from and to. -/
def Edge.link (edge : Edge) : String × String :=
  (edge.source.nodeId, edge.target.nodeId)

/-- A link that is made behind all others is entered in both tables. -/
theorem Wiring.tables_concat (vertices : List String)
    (links : List (String × String)) (a b : String) :
    let w : Wiring String := ⟨vertices, links⟩
    (Wiring.mk vertices (links ++ [(a, b)])).tables =
      { successors := Function.update w.successors a (w.successors a ++ [b])
        inDegree := Function.update w.inDegree b (w.inDegree b + 1) } := by
  intro w
  refine PlanTables.ext (funext fun u => ?_) (funext fun v => ?_)
  · by_cases hu : u = a
    · subst hu
      simp [Wiring.tables, Wiring.successors, w]
    · simp [Wiring.tables, Wiring.successors, Function.update_of_ne hu,
        Ne.symm hu, w]
  · by_cases hv : v = b
    · subst hv
      simp [Wiring.tables, Wiring.inDegree, Wiring.predecessors, w]
    · simp [Wiring.tables, Wiring.inDegree, Wiring.predecessors,
        Function.update_of_ne hv, Ne.symm hv, w]

/-! ## One edge after another -/

/-- Whether a link joins two nodes. -/
def linkJoins (nodes : List Node) (link : String × String) : Bool :=
  !(link.1 == link.2) && (findNode? nodes link.1).isSome &&
    (findNode? nodes link.2).isSome

/-- The wiring has the links of all edges, each at its first place, but for
those that do not join two nodes. -/
theorem links_eq_filter (nodes : List Node) (edges : List Edge) :
    (wiring nodes edges).links =
      (edges.map Edge.link).eraseDups.filter (linkJoins nodes) := by
  rw [← eraseDups_filter, List.filter_map]
  rfl

theorem links_concat (nodes : List Node) (edges : List Edge) (edge : Edge) :
    (wiring nodes (edges ++ [edge])).links =
      if edge.connects nodes ∧ edge.link ∉ (wiring nodes edges).links then
        (wiring nodes edges).links ++ [edge.link]
      else (wiring nodes edges).links := by
  have hjoins : linkJoins nodes edge.link = edge.connects nodes := rfl
  have hmem : edge.link ∈ (wiring nodes edges).links ↔
      edge.link ∈ edges.map Edge.link ∧ edge.connects nodes = true := by
    rw [links_eq_filter, List.mem_filter, List.mem_eraseDups, hjoins]
  rw [links_eq_filter, List.map_append, List.map_singleton, eraseDups_concat]
  by_cases hold : edge.link ∈ edges.map Edge.link
  · rw [if_pos hold, ← links_eq_filter, if_neg]
    rintro ⟨hconnects, hnew⟩
    exact hnew (hmem.mpr ⟨hold, hconnects⟩)
  · rw [if_neg hold, List.filter_append, ← links_eq_filter]
    cases hconnects : edge.connects nodes with
    | false => simp [hjoins, hconnects]
    | true => simp [hjoins, hconnects, hmem, hold]

/-- An edge that is taken turns the tables of the edges before it into those of
the edges up to it. -/
theorem take_tables (nodes : List Node) (edges : List Edge) (edge : Edge) :
    (wiring nodes edges).tables.take nodes edge =
      (wiring nodes (edges ++ [edge])).tables := by
  have hnew : edge.target.nodeId ∈
      (wiring nodes edges).successors edge.source.nodeId ↔
        edge.link ∈ (wiring nodes edges).links := Wiring.mem_successors
  have hlinks := links_concat nodes edges edge
  rw [PlanTables.take]
  simp only [Wiring.tables, hnew]
  split
  · next h =>
      rw [if_pos h] at hlinks
      have hwiring : wiring nodes (edges ++ [edge]) =
          ⟨nodeIds nodes, (wiring nodes edges).links ++ [edge.link]⟩ :=
        congrArg (Wiring.mk _) hlinks
      rw [hwiring]
      exact (Wiring.tables_concat _ _ _ _).symm
  · next h =>
      rw [if_neg h] at hlinks
      rw [wiring_eq_of_links hlinks]

theorem foldl_take_edges (nodes : List Node) (edges : List Edge) :
    edges.foldl (PlanTables.take nodes) .blank =
      (wiring nodes edges).tables := by
  induction edges using List.reverseRecOn with
  | nil => rfl
  | append_singleton edges edge ih =>
      rw [List.foldl_append, ih]
      exact take_tables nodes edges edge

/-! ## What the tables say -/

/-- Nodes that a node feeds stand in the order of the first edges to them. -/
theorem pairwise_successors (nodes : List Node) (edges : List Edge)
    (u : String) :
    ((wiring nodes edges).successors u).Pairwise fun a b =>
      (edges.map Edge.link).idxOf (u, a) <
        (edges.map Edge.link).idxOf (u, b) := by
  have hlinks : (wiring nodes edges).links.Pairwise fun a b =>
      (edges.map Edge.link).idxOf a < (edges.map Edge.link).idxOf b := by
    rw [links_eq_filter]
    exact (pairwise_idxOf_eraseDups _).filter _
  rw [Wiring.successors, List.pairwise_map]
  refine (hlinks.filter _).imp_of_mem fun {a b} ha hb hlt => ?_
  have hsource : (u, a.2) = a := by
    rw [← of_decide_eq_true (List.mem_filter.mp ha).2]
  have hsource' : (u, b.2) = b := by
    rw [← of_decide_eq_true (List.mem_filter.mp hb).2]
  rwa [hsource, hsource']

theorem inDegree_eq_encard (nodes : List Node) (edges : List Edge)
    (v : String) : ((wiring nodes edges).inDegree v : ℕ∞) =
      {u | Linked nodes edges u v}.encard := by
  have hset : {u | Linked nodes edges u v} =
      {u | u ∈ (wiring nodes edges).predecessors v} := by
    ext u
    rw [← feeds_wiring_eq_linked]
    exact Wiring.mem_predecessors.symm
  rw [hset, encard_of_nodup
    ((wiring_sound nodes edges).predecessors_nodup v)]
  rfl

/-! ## Edges that are passed over -/

/-- An edge that makes no entry: it joins no nodes, or an edge before it has
made the entry. -/
def Edge.IsSpare (nodes : List Node) (front : List Edge) (edge : Edge) : Prop :=
  ¬ edge.Joins nodes ∨ edge.link ∈ front.map Edge.link

/-- One edge that makes no entry is left out. -/
def Drops (nodes : List Node) (edges kept : List Edge) : Prop :=
  ∃ front edge back, edges = front ++ edge :: back ∧ kept = front ++ back ∧
    edge.IsSpare nodes front

theorem wiring_insert_spare (h : edge.IsSpare nodes front) :
    wiring nodes (front ++ edge :: back) = wiring nodes (front ++ back) := by
  refine wiring_eq_of_links ?_
  rcases h with hapart | hbefore
  · show ((connecting nodes _).map Edge.link).eraseDups = _
    rw [connecting_insert hapart]
    rfl
  · rw [links_eq_filter, links_eq_filter, List.map_append, List.map_cons,
      eraseDups_insert_of_mem hbefore, List.map_append]

theorem wiring_of_drops {kept : List Edge}
    (h : Relation.ReflTransGen (Drops nodes) edges kept) :
    wiring nodes kept = wiring nodes edges := by
  induction h with
  | refl => rfl
  | tail _ hdrop ih =>
      obtain ⟨front, edge, back, rfl, rfl, hspare⟩ := hdrop
      rw [← ih, wiring_insert_spare hspare]

/-- The tables that planning fills edge by edge say what there is to say about
the links between nodes, and no more. The ids stand in the order of the nodes. A
node feeds another one if some edge leads from the one to the other, and it has
what it feeds in the order of the first such edges, each once. The count of a
node is the number of nodes that feed it, and the starts are the nodes that none
feeds. So edges that lead back to their node, miss a node or repeat the link of
an edge before them can be left out, as many as one likes, and nothing that is
planned changes. -/
theorem plan_tables_exact (nodes : List Node) (edges : List Edge) :
    edges.foldl (PlanTables.take nodes) .blank =
      (wiring nodes edges).tables ∧
    (InNodeOrder nodes (wiring nodes edges).vertices ∧
      ∀ id, id ∈ (wiring nodes edges).vertices ↔
        ∃ node ∈ nodes, node.id = id) ∧
    (∀ u,
      ((wiring nodes edges).successors u).Pairwise (fun a b =>
        (edges.map Edge.link).idxOf (u, a) <
          (edges.map Edge.link).idxOf (u, b)) ∧
      ∀ v, v ∈ (wiring nodes edges).successors u ↔ Linked nodes edges u v) ∧
    (∀ v, ((wiring nodes edges).inDegree v : ℕ∞) =
      {u | Linked nodes edges u v}.encard) ∧
    (InNodeOrder nodes (wiring nodes edges).starts ∧
      ∀ id, id ∈ (wiring nodes edges).starts ↔ IsStart nodes edges id) ∧
    ∀ kept, Relation.ReflTransGen (Drops nodes) edges kept →
      (wiring nodes kept).starts = (wiring nodes edges).starts ∧
      (wiring nodes kept).order = (wiring nodes edges).order ∧
      (wiring nodes kept).unreachable = (wiring nodes edges).unreachable ∧
      (wiring nodes kept).tables = (wiring nodes edges).tables := by
  refine ⟨foldl_take_edges nodes edges,
    ⟨pairwise_idxOf_eraseDups _, fun _ => mem_nodeIds⟩, fun u => ?_,
    inDegree_eq_encard nodes edges,
    ⟨inNodeOrder_filter nodes _, fun _ => mem_starts_wiring⟩,
    fun kept hkept => ?_⟩
  · refine ⟨pairwise_successors nodes edges u, fun v => ?_⟩
    rw [Wiring.mem_successors, feeds_wiring_eq_linked]
  · rw [wiring_of_drops hkept]
    exact ⟨rfl, rfl, rfl, rfl⟩

/-- A fork with an edge that leads back to its node, one that comes from
nowhere, and one that takes the way of another by a port that does not exist. -/
def Graph.frayed : Graph where
  nodes := [
    .new "start" .trigger, .new "left" .output, .new "start" .output,
    .new "right" .output]
  edges := [
    ⟨"e1", { nodeId := "start" }, { nodeId := "right" }⟩,
    ⟨"e2", { nodeId := "right", portId := some "?" }, { nodeId := "right" }⟩,
    ⟨"e3", { nodeId := "start" }, { nodeId := "left" }⟩,
    ⟨"e4", { nodeId := "gone" }, { nodeId := "left" }⟩,
    ⟨"e5", { nodeId := "start", portId := some "?" }, { nodeId := "right" }⟩]

/-- Two of its edges are all that planning sees. -/
theorem plan_tables_exact_frayed :
    let nodes := Graph.frayed.nodes
    let edges := Graph.frayed.edges
    let kept := [edges[0], edges[2]]
    Relation.ReflTransGen (Drops nodes) edges kept ∧
      (wiring nodes kept).order = (wiring nodes edges).order ∧
      (wiring nodes kept).tables = (wiring nodes edges).tables ∧
      (edges.foldl (PlanTables.take nodes) .blank).successors "start" =
        ["right", "left"] ∧
      {u | Linked nodes edges u "left"}.encard = 1 := by
  intro nodes edges kept
  obtain ⟨htables, _, _, hcount, _, hdrops⟩ := plan_tables_exact nodes edges
  have hkept : Relation.ReflTransGen (Drops nodes) edges kept := by
    refine .head ⟨edges.take 1, edges[1], edges.drop 2, rfl, rfl,
      .inl (by decide)⟩ ?_
    refine .head ⟨kept, edges[3], edges.drop 4, rfl, rfl,
      .inl (by decide)⟩ ?_
    exact .single ⟨kept, edges[4], [], rfl, rfl, .inr (by decide)⟩
  obtain ⟨_, horder, _, hsame⟩ := hdrops kept hkept
  refine ⟨hkept, horder, hsame, ?_, ?_⟩
  · rw [htables]
    decide
  · rw [← hcount]
    have hone : (wiring nodes edges).inDegree "left" = 1 := by decide
    rw [hone]
    rfl

end Flowgraph
