import Flowgraph.Graph.Basic
import Flowgraph.Time.Moment

/-!
# Documents

A document is a graph as it is stored: with the version of its layout, the
moment of its export, and the state of the editor it came from.
-/

namespace Flowgraph

/-- The version of the layout that is written and understood. -/
def supportedVersion : UInt32 := 1

/-- A stored graph. The state of the editor is only carried along. -/
structure Document where
  schemaVersion : UInt32
  exportedAt : Moment
  graph : Graph
  editorState : Json
  deriving DecidableEq

/-- A document of the present layout. -/
def Document.new (graph : Graph) (editorState : Json) (now : Moment) :
    Document :=
  ⟨supportedVersion, now, graph, editorState⟩

end Flowgraph
