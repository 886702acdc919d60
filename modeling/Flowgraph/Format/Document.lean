import Flowgraph.Format.Graph
import Flowgraph.Graph.Document
import Flowgraph.Json.Text

/-!
# The written form of documents

A text is a document if it has the layout of one, whatever version it says it
has; that the version is the supported one is checked last.
-/

namespace Flowgraph

/-- Why a text is not a document that can be used. -/
inductive DocumentFault where
  | unreadable (problem : Problem)
  | unsupportedVersion (found : UInt32)
  deriving DecidableEq

/-- The fault in words. -/
def DocumentFault.message : DocumentFault → String
  | unreadable problem => s!"failed to parse graph document: {problem.message}"
  | unsupportedVersion found =>
    s!"unsupported schema version {found} (supported: {supportedVersion})"

/-- A moment as JSON. -/
def Moment.toJson (m : Moment) : Json := .string (String.ofList m.write)

namespace Document

/-- The fields of a document. -/
def fields : List (Field Tree Document) :=
  [.of "schemaVersion" .required (Reader.unsigned 32)
    fun v d => { d with schemaVersion := ⟨v⟩ },
   .of "exportedAt" .required Reader.moment
    fun v d => { d with exportedAt := v },
   .of "graph" .required Graph.read fun v d => { d with graph := v },
   .of "editorState" .defaulted Reader.json
    fun v d => { d with editorState := v }]

/-- The document that stands at a place of a text. -/
def read : Reader Document :=
  .record "struct GraphDocument" fields ⟨0, .start, {}, .null⟩

/-- The written form of a document. -/
def toJson (document : Document) : Json :=
  .object
    [("schemaVersion", .nat document.schemaVersion.toNat),
     ("exportedAt", document.exportedAt.toJson),
     ("graph", document.graph.toJson),
     ("editorState", document.editorState)]

/-- The document of a text. -/
def ofText (text : String) : Except DocumentFault Document :=
  match read.ofText text with
  | .error problem => .error (.unreadable problem)
  | .ok document =>
    if document.schemaVersion = supportedVersion then .ok document
    else .error (.unsupportedVersion document.schemaVersion)

/-- The text of a document. -/
def toText (document : Document) : String := document.toJson.pretty

end Document

end Flowgraph
