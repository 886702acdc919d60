import Flowgraph.Proofs.EdgeVerdicts
import Flowgraph.Proofs.Ends

/-!
# Ports that are left out

An edge that means a default port may name it or leave it out. In two places the
default is put in for a port that is left out: where a node is asked for the
port, and where the port is shown or compared with another one. Both put in the
same, so that nothing but the ends of an edge decides on its faults and on the
connection it makes.

What a report says of an edge also names its id. Edges that have their ids and
their ends in common therefore have their issues in common, and a list of them
can take the place of another one in every check.
-/

namespace Flowgraph

variable {nodes : List Node} {xs ys : List Edge} {a b : Edge} {name : String}
  {s t : Option String}

/-! ## The same port -/

/-- Two ways to say which port is meant, where `name` is the default one: they
are equal, or one of them names it and the other leaves it out. -/
inductive SameHandle (name : String) : Option String → Option String → Prop
  | same (handle : Option String) : SameHandle name handle handle
  | spelled : SameHandle name none (some name)
  | omitted : SameHandle name (some name) none

theorem sameHandle_iff : SameHandle name s t ↔ s.getD name = t.getD name := by
  constructor
  · intro h
    cases h <;> rfl
  · intro h
    cases s with
    | none =>
        cases t with
        | none => exact .same none
        | some handle =>
            obtain rfl : name = handle := h
            exact .spelled
    | some handle =>
        cases t with
        | none =>
            obtain rfl : handle = name := h
            exact .omitted
        | some handle' =>
            obtain rfl : handle = handle' := h
            exact .same (some handle)

namespace Edge

/-- Two edges between the same nodes, by ports that are meant to be the same. -/
structure SameEnds (a b : Edge) : Prop where
  source : a.source.nodeId = b.source.nodeId
  sourceHandle : SameHandle "out" a.source.portId b.source.portId
  target : a.target.nodeId = b.target.nodeId
  targetHandle : SameHandle "in" a.target.portId b.target.portId

/-- An edge, and the same edge with default ports named or left out. -/
structure Respells (a b : Edge) : Prop extends SameEnds a b where
  id_eq : a.id = b.id

theorem sameEnds_iff : a.SameEnds b ↔ a.ends = b.ends := by
  rw [ends, ends, Prod.mk.injEq, Prod.mk.injEq, Prod.mk.injEq]
  constructor
  · intro h
    exact ⟨⟨h.source, sameHandle_iff.mp h.sourceHandle⟩,
      h.target, sameHandle_iff.mp h.targetHandle⟩
  · intro ⟨⟨hsource, hout⟩, htarget, hin⟩
    exact ⟨hsource, sameHandle_iff.mpr hout, htarget, sameHandle_iff.mpr hin⟩

theorem respells_iff : a.Respells b ↔ a.ends = b.ends ∧ a.id = b.id := by
  rw [← sameEnds_iff]
  exact ⟨fun h => ⟨h.toSameEnds, h.id_eq⟩, fun h => ⟨h.1, h.2⟩⟩

instance : Decidable (a.SameEnds b) := decidable_of_iff _ sameEnds_iff.symm

instance : DecidableRel Respells :=
  fun _ _ => decidable_of_iff _ respells_iff.symm

/-! ## The same faults -/

namespace SameEnds

variable (h : a.SameEnds b)
include h

theorem sourcePort_eq : a.sourcePort = b.sourcePort :=
  sameHandle_iff.mp h.sourceHandle

theorem targetPort_eq : a.targetPort = b.targetPort :=
  sameHandle_iff.mp h.targetHandle

theorem portFaults_eq (source target : Node) :
    a.portFaults source target = b.portFaults source target := by
  have hout : source.kind.port? .output a.source.portId =
      source.kind.port? .output b.source.portId := by
    rw [NodeKind.port?, NodeKind.port?]
    exact congrArg (fun name => source.kind.outputs.find? (·.id = name))
      h.sourcePort_eq
  have hin : target.kind.port? .input a.target.portId =
      target.kind.port? .input b.target.portId := by
    rw [NodeKind.port?, NodeKind.port?]
    exact congrArg (fun name => target.kind.inputs.find? (·.id = name))
      h.targetPort_eq
  rw [portFaults, hout, hin, h.sourcePort_eq, h.targetPort_eq, portFaults]

theorem faults_eq (nodes : List Node) : a.faults nodes = b.faults nodes := by
  rw [faults, faults, isSelfLoop, isSelfLoop, h.source, h.target]
  simp only [h.portFaults_eq]

theorem connection_eq : a.connection = b.connection := by
  rw [← connectionText_ends, sameEnds_iff.mp h, connectionText_ends]

end SameEnds

namespace Respells

variable (h : a.Respells b)
include h

theorem issue_eq : a.issue = b.issue := by
  funext fault
  cases fault <;> simp only [issue, h.id_eq, h.source]

theorem duplicateIssue_eq : a.duplicateIssue = b.duplicateIssue := by
  rw [duplicateIssue, h.toSameEnds.connection_eq, h.id_eq, duplicateIssue]

end Respells

end Edge

/-! ## The same report -/

theorem edgeIssues_respelled (h : List.Forall₂ Edge.Respells xs ys) :
    edgeIssues nodes xs = edgeIssues nodes ys := by
  suffices hfrom : ∀ seen, edgeIssuesFrom nodes seen xs =
      edgeIssuesFrom nodes seen ys from hfrom []
  induction h with
  | nil => exact fun _ => rfl
  | cons hab _ ih =>
      intro seen
      have hends := hab.toSameEnds
      simp only [edgeIssuesFrom, hends.faults_eq, hends.connection_eq,
        hab.issue_eq, hab.duplicateIssue_eq, ih]

theorem map_ends_respelled (h : List.Forall₂ Edge.Respells xs ys) :
    xs.map Edge.ends = ys.map Edge.ends := by
  induction h with
  | nil => rfl
  | cons hab _ ih =>
      rw [List.map_cons, Edge.sameEnds_iff.mp hab.toSameEnds, ih, List.map_cons]

/-- Default ports may be named or left out, in whatever edges and on either
side, and the report stays the same: its issues, their order, the counts and the
plan. -/
theorem spelling_keeps_report (nodes : List Node)
    (h : List.Forall₂ Edge.Respells xs ys) :
    validate nodes xs = validate nodes ys := by
  have hconn : connections nodes xs = connections nodes ys := by
    rw [connections_eq, map_ends_respelled h, connections_eq]
  have hsame : (connections nodes xs).Perm (connections nodes ys) :=
    .of_eq hconn
  have hinputs : inputIssues nodes xs = inputIssues nodes ys :=
    inputIssues_congr hsame.subset hsame.symm.subset
  have houtputs : outputIssues nodes xs = outputIssues nodes ys :=
    outputIssues_congr hsame.subset hsame.symm.subset
  have hwiring : wiring nodes xs = wiring nodes ys :=
    wiring_eq_of_links (by rw [links_wiring, hconn, links_wiring])
  rw [validate, validate, connectionIssues, connectionIssues,
    edgeIssues_respelled h, hinputs, houtputs, hwiring]

/-- The edges of the tangle with ports named that were left out. -/
def Graph.tangleSpelled : List Edge := [
  ⟨"loop", ⟨"text", some "out"⟩, ⟨"text", some "in"⟩⟩,
  ⟨"right", ⟨"text", some "out"⟩, ⟨"end", none⟩⟩,
  ⟨"stray", ⟨"nowhere", none⟩, ⟨"end", some "in"⟩⟩,
  ⟨"back", ⟨"end", some "out"⟩, ⟨"begin", some "in"⟩⟩,
  ⟨"unfit", ⟨"store", none⟩, ⟨"model", none⟩⟩]

/-- Among them is an edge by two ports that its nodes do not have. -/
theorem spelling_keeps_report_tangle :
    List.Forall₂ Edge.Respells Graph.tangle.edges Graph.tangleSpelled ∧
      Graph.tangle.edges ≠ Graph.tangleSpelled ∧
      Graph.tangle.validate =
        validate Graph.tangle.nodes Graph.tangleSpelled := by
  have h : List.Forall₂ Edge.Respells Graph.tangle.edges
      Graph.tangleSpelled := by decide
  exact ⟨h, by decide, spelling_keeps_report Graph.tangle.nodes h⟩

end Flowgraph
