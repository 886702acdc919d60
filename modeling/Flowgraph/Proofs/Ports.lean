import Flowgraph.Check.Edges
import Flowgraph.Proofs.Distinct

/-!
# Ports and connections

A handle stands for the port of that name, because no kind has two ports of one
name in one direction. All inputs bear the default name, whatever the kind. This
is what makes the text of a connection tell connections apart where it has to:
the text is ambiguous for ids made up to that end, but between edges that leave
one port and enter inputs that exist it can only differ in the id of the target.
-/

namespace Flowgraph

variable {kind : NodeKind} {direction : Direction} {handle : Option String}
  {port : Port}

theorem ports_nodup (kind : NodeKind) (direction : Direction) :
    ((kind.ports direction).map (·.id)).Nodup := by
  cases kind <;> cases direction <;> decide

theorem port?_eq_some : kind.port? direction handle = some port ↔
    port ∈ kind.ports direction ∧
      port.id = handle.getD direction.defaultPort :=
  find?_key_eq_some (ports_nodup kind direction)

theorem id_of_mem_inputs (h : port ∈ kind.inputs) : port.id = defaultInput := by
  revert port
  cases kind <;> decide

/-- Between edges that share the ports they leave and enter, the text of a
connection says where it leads. -/
theorem connection_eq_iff {a b : Edge}
    (hsource : a.source.nodeId = b.source.nodeId)
    (hsourcePort : a.sourcePort = b.sourcePort)
    (htargetPort : a.targetPort = b.targetPort) :
    a.connection = b.connection ↔ a.target.nodeId = b.target.nodeId := by
  rw [Edge.connection, Edge.connection, hsource, hsourcePort, htargetPort]
  simp only [String.append_left_inj, String.append_right_inj]

end Flowgraph
