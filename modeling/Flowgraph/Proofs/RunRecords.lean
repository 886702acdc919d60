import Flowgraph.Format.Run
import Flowgraph.Proofs.Loading
import Flowgraph.Proofs.RoundTrip

/-!
# The round trip of run records

The events of a run and its record travel as compact texts. The two are written
in different ways: an event is an object in an object, the outer one with the
kind as its only member, and a record is an object that leaves out what is not
yet known. Both are read back as they were, since every member goes where the
field of its name puts it, and neither holds a floating-point number, nests
deeper than the readers go, or writes anything that is known as `null`.

An event is taken apart into its kind and its members. The members fill the
parts that belong to the kind, and the kind with its parts is the event.
-/

namespace Flowgraph

open Flowgraph.Field

/-! ## Compact texts -/

theorem Reader.ofText_compact {α : Type} {read : Reader α} {j : Json} {a : α}
    (hdepth : j.depth ≤ Tree.depthLimit) (h : read j.toTree = .ok a) :
    read.ofText j.compact = .ok a := by
  simp [Reader.ofText, Tree.ofText_compact hdepth, h, bind, Except.bind, pure,
    Except.pure]

/-- An object whose only member has the name of a variant is read as its
content. -/
theorem Reader.variant_of {α β : Type} {variants : Variants α}
    {bare : α → Except Problem β} {content : α → Reader β} {name : String}
    {choice : α} {j : Json} {b : β}
    (hname : variantNamed variants name = .ok choice)
    (h : content choice j.toTree = .ok b) :
    variant variants bare content (Json.object [(name, j)]).toTree = .ok b := by
  simp [Json.toTree, Json.memberTrees, variant, Problem.lift, hname, h, bind,
    Except.bind, pure, Except.pure]

theorem Reader.list_strings (texts : List String) :
    Reader.list Reader.string (Json.array (texts.map .string)).toTree =
      .ok texts :=
  Reader.list_of (List.forall₂_map_left_iff.mpr
    (List.forall₂_same.mpr fun _ _ => rfl))

theorem RunStatus.read_toJson (status : RunStatus) :
    RunStatus.read status.toJson.toTree = .ok status := by
  cases status <;> rfl

theorem NodeStatus.read_toJson (status : NodeStatus) :
    NodeStatus.read status.toJson.toTree = .ok status := by
  cases status <;> rfl

/-! ## Events -/

namespace Event

theorem Kind.variantNamed_name (kind : Kind) :
    variantNamed (.named Kind.name Kind.all) kind.name = .ok kind := by
  cases kind <;> rfl

/-- The kind of an event. -/
def kind : Event → Kind
  | runStarted .. => .runStarted
  | nodeStatusChanged .. => .nodeStatusChanged
  | nodeFailed .. => .nodeFailed
  | runFinished .. => .runFinished

/-- The parts that an event has. -/
def parts : Event → Parts
  | runStarted runId nodes => { runId, nodes }
  | nodeStatusChanged runId nodeId status =>
    { runId, nodeId, nodeStatus := status }
  | nodeFailed runId nodeId error => { runId, nodeId, error }
  | runFinished runId status durationMs =>
    { runId, runStatus := status, durationMs }

/-- The members that an event is written as, beside its kind. -/
def members : Event → List (String × Json)
  | runStarted runId nodes =>
    [("execution_id", .string runId), ("nodes", .array (nodes.map .string))]
  | nodeStatusChanged runId nodeId status =>
    [("execution_id", .string runId), ("node_id", .string nodeId),
     ("status", status.toJson)]
  | nodeFailed runId nodeId error =>
    [("execution_id", .string runId), ("node_id", .string nodeId),
     ("error", .string error)]
  | runFinished runId status durationMs =>
    [("execution_id", .string runId), ("status", status.toJson),
     ("duration_ms", .nat durationMs.toNat)]

theorem toJson_eq (event : Event) :
    event.toJson = .object [(event.kind.name, .object event.members)] := by
  cases event <;> rfl

theorem ofParts_parts (event : Event) :
    ofParts event.parts event.kind = event := by
  cases event <;> rfl

theorem fills_members (event : Event) :
    Fills event.kind.fields Json.toTree event.members {} event.parts := by
  cases event with
  | runStarted runId nodes =>
      exact .cons rfl rfl (.cons rfl (read_of (Reader.list_strings nodes) _)
        .nil)
  | nodeStatusChanged runId nodeId status =>
      exact .cons rfl rfl (.cons rfl rfl
        (.cons rfl (read_of status.read_toJson _) .nil))
  | nodeFailed runId nodeId error =>
      exact .cons rfl rfl (.cons rfl rfl (.cons rfl rfl .nil))
  | runFinished runId status durationMs =>
      have hduration : Reader.unsigned 64
          (Json.nat durationMs.toNat).toTree = .ok durationMs.toBitVec :=
        Reader.unsigned_toNat (Nat.le_refl 64) durationMs.toBitVec
      exact .cons rfl rfl (.cons rfl (read_of status.read_toJson _)
        (.cons rfl (read_of hduration _) .nil))

theorem read_toJson (event : Event) : read event.toJson.toTree = .ok event := by
  have hnodup : (event.members.map (·.1)).Nodup := by
    cases event <;> simp [members]
  have hmissing :
      missing? event.kind.fields (event.members.map (·.1)) = none := by
    cases event <;> rfl
  have hparts : Reader.record event.kind.wanted event.kind.fields {}
      (Json.object event.members).toTree = .ok event.parts :=
    Reader.record_of_fills _ event.fills_members hnodup hmissing
  rw [toJson_eq]
  refine Reader.variant_of event.kind.variantNamed_name ?_
  rw [hparts]
  exact congrArg Except.ok event.ofParts_parts

theorem depth_toJson (event : Event) : event.toJson.depth ≤ 3 := by
  cases event with
  | runStarted runId nodes =>
      have hnodes : (Json.array (nodes.map .string)).depth ≤ 1 := by
        refine Json.depth_array_le fun j hj => ?_
        obtain ⟨id, _, rfl⟩ := List.mem_map.mp hj
        exact Nat.le_refl 0
      simp only [toJson, Json.depth, Json.membersDepth] at hnodes ⊢
      omega
  | nodeStatusChanged => exact (by decide : 2 ≤ 3)
  | nodeFailed => exact (by decide : 2 ≤ 3)
  | runFinished => exact (by decide : 2 ≤ 3)

end Event

/-! ## Records of runs -/

namespace Execution

theorem read_toJson (execution : Execution) :
    read execution.toJson.toTree = .ok execution := by
  obtain ⟨id, status, startedAt, finishedAt, durationMs⟩ := execution
  -- Either of the last two members may be absent, so they are filled apart.
  refine Reader.record_of_fills _ (.cons rfl rfl
    (.cons rfl (read_of status.read_toJson _)
    (.cons rfl (read_of startedAt.read_toJson _) (Fills.append
      (b := ⟨id, status, startedAt, finishedAt, none⟩) ?_ ?_)))) ?_ ?_
  · refine fills_member? (c := finishedAt) rfl ?_ ?_ rfl
    · rintro m rfl
      rw [Reader.optional_of_ne_null _ (by rintro ⟨⟩), m.read_toJson]
      rfl
    · rintro rfl
      rfl
  · refine fills_member? (c := durationMs.map (·.toBitVec)) rfl ?_ ?_ ?_
    · rintro n rfl
      have htree := Json.toTree_nat (Nat.le_refl 64) n.toBitVec
      have hread := Reader.unsigned_toNat (Nat.le_refl 64) n.toBitVec
      show Reader.optional _ (Json.nat n.toBitVec.toNat).toTree = _
      rw [Reader.optional_of_ne_null _ (by rw [htree]; rintro ⟨⟩), hread]
      rfl
    · rintro rfl
      rfl
    · cases durationMs <;> rfl
  · cases finishedAt <;> cases durationMs <;> simp [Json.member?]
  · cases finishedAt <;> cases durationMs <;> rfl

theorem depth_toJson (execution : Execution) : execution.toJson.depth ≤ 1 := by
  have hfinished : Json.membersDepth
      (Json.member? "finishedAt" Moment.toJson execution.finishedAt) ≤ 0 :=
    Json.membersDepth_member?_le fun _ _ => Nat.le_refl 0
  have hduration : Json.membersDepth (Json.member? "durationMs"
      (fun n : UInt64 => .nat n.toNat) execution.durationMs) ≤ 0 :=
    Json.membersDepth_member?_le fun _ _ => Nat.le_refl 0
  simp only [toJson, Json.membersDepth_append, List.cons_append, Json.depth,
    Json.membersDepth, RunStatus.toJson, Moment.toJson] at hfinished ⊢
  omega

end Execution

/-- Whatever happens in a run, the compact text of the event is read back as the
event, so different events have different texts. The record of a run is read
back from its compact text as well, whether the run has ended or not. -/
theorem run_records_read_back :
    (∀ event : Event, Event.read.ofText event.toJson.compact = .ok event) ∧
    (∀ execution : Execution,
      Execution.read.ofText execution.toJson.compact = .ok execution) ∧
    Function.Injective fun event : Event => event.toJson.compact := by
  have hevent (event : Event) :
      Event.read.ofText event.toJson.compact = .ok event :=
    Reader.ofText_compact (Nat.le_trans event.depth_toJson (by decide))
      event.read_toJson
  refine ⟨hevent, fun execution => ?_, fun a b hsame => ?_⟩
  · exact Reader.ofText_compact
      (Nat.le_trans execution.depth_toJson (by decide)) execution.read_toJson
  · have hread := hevent a
    rw [show a.toJson.compact = b.toJson.compact from hsame, hevent b] at hread
    exact (Except.ok.inj hread).symm

/-- The longest duration is written out digit by digit. -/
example : (Event.runFinished "r\t1" .failed
      18446744073709551615).toJson.compact =
    "\x7b\"RunFinished\":\x7b\"execution_id\":\"r\\t1\"," ++
      "\"status\":\"failed\",\"duration_ms\":18446744073709551615\x7d\x7d" := by
  decide

end Flowgraph
