import Flowgraph.Proofs.Verdict
import Flowgraph.Proofs.WellFormed

/-!
# What is reported of fields

The checks of a configuration take its texts from where they are stored, and
give each of them the path by which it is to be found. A reader of a report sees
neither: there is a document, and there are paths that the report names in it.
Here the reports of fields are put in these terms: one error for each text that
is missing at a required path of the written configuration, in the order of the
paths, and one for a temperature out of range.

Each requirement is tied to its path, so the rest follows, in particular that
nothing else in a configuration has an influence on what is reported.
-/

namespace Flowgraph

/-! ## Field checks -/

/-- A temperature that is not between zero and two. -/
def NodeConfig.OutOfRange (config : NodeConfig) : Prop :=
  ∃ t ∈ config.temperature?,
    ¬ (0 ≤ t.value ∧ t.value ≤ 2 * BinaryFormat.single.one)

instance (config : NodeConfig) : Decidable config.OutOfRange :=
  inferInstanceAs (Decidable (∃ t ∈ config.temperature?, _))

namespace Node

/-- The error of a text that is missing, but for its words. -/
def lackingIssue (node : Node) (path : List String) : Issue :=
  { Issue.error .field .missingRequiredField "" with
    nodeId := some node.id
    fieldPath := some (dotted path) }

/-- The error of a temperature out of range, but for its words. -/
def rangeIssue (node : Node) : Issue :=
  { Issue.error .field .invalidField "" with
    nodeId := some node.id
    fieldPath := some "temperature" }

variable (node : Node)

theorem unworded_missingFields :
    ((node.config.requirements.filter fun r =>
        Text.isBlankText r.value).map node.missingField).map Issue.unworded =
      (node.config.toJson.requiredPaths.filter
        node.config.toJson.lacks).map node.lackingIssue := by
  have hlacking := List.rel_filter
    (p := fun r : Requirement => Text.isBlankText r.value)
    (q := node.config.toJson.lacks)
    (fun r path h => Bool.eq_iff_iff.mp (isBlankText_of_writtenAt h))
    (requirements_written node.config)
  rw [List.map_map, ← List.forall₂_eq_eq_eq]
  refine List.rel_map (fun r path h => ?_) hlacking
  rw [lackingIssue, ← h.1]
  rfl

theorem unworded_badTemperature :
    (node.config.badTemperature?.toList.map node.badTemperature).map
        Issue.unworded =
      if node.config.OutOfRange then [node.rangeIssue] else [] := by
  rw [NodeConfig.badTemperature?_eq_filter]
  simp only [NodeConfig.OutOfRange, ← isTemperature_iff]
  cases node.config.temperature? with
  | none => rfl
  | some t =>
      rw [Option.filter_some]
      by_cases hrange : isTemperature t = true
      · rw [if_neg (by simp [hrange]), if_neg (by simp [hrange])]
        rfl
      · rw [if_pos (by simp [hrange]), if_pos ⟨t, rfl, hrange⟩]
        rfl

theorem unworded_fieldIssues : node.fieldIssues.map Issue.unworded =
    (node.config.toJson.requiredPaths.filter
        node.config.toJson.lacks).map node.lackingIssue ++
      if node.config.OutOfRange then [node.rangeIssue] else [] := by
  rw [fieldIssues, List.map_append, unworded_missingFields,
    unworded_badTemperature]

/-- The reported paths depend on nothing but the paths of missing texts, and on
whether the temperature is out of range. -/
theorem map_fieldPath_fieldIssues : node.fieldIssues.map (·.fieldPath) =
    (node.config.toJson.requiredPaths.filter
        node.config.toJson.lacks ++
      if node.config.OutOfRange then [["temperature"]] else []).map
        fun path => some (dotted path) := by
  have hplaces := congrArg (List.map (·.fieldPath)) node.unworded_fieldIssues
  rw [List.map_map] at hplaces
  refine hplaces.trans ?_
  rw [List.map_append, List.map_map, List.map_append]
  split <;> rfl

end Node

/-- Fields are checked as the table of requirements says. At every required path
there is a text. The issues are one error for each of these texts that is
missing, in the order of the paths, and one for a temperature out of range. No
path is reported twice. Of another node in which the same choices are made, the
same texts are missing, and the temperature is just as well in range or not, the
same paths are reported, whatever else its configuration holds. -/
theorem field_issues_follow_paths (node : Node) :
    (∀ path ∈ node.config.toJson.requiredPaths,
      (node.config.toJson.textAt path).isSome) ∧
    node.fieldIssues.map Issue.unworded =
      (node.config.toJson.requiredPaths.filter
          node.config.toJson.lacks).map node.lackingIssue ++
        (if node.config.OutOfRange then [node.rangeIssue] else []) ∧
    (node.fieldIssues.map (·.fieldPath)).Nodup ∧
    ∀ other : Node,
      (∀ path ∈ Json.choices, other.config.toJson.textAt path =
        node.config.toJson.textAt path) →
      (∀ path ∈ node.config.toJson.requiredPaths,
        other.config.toJson.lacks path = node.config.toJson.lacks path) →
      (other.config.OutOfRange ↔ node.config.OutOfRange) →
      other.fieldIssues.map (·.fieldPath) =
        node.fieldIssues.map (·.fieldPath) := by
  refine ⟨textAt_isSome, node.unworded_fieldIssues, ?_, ?_⟩
  · have hdistinct := (nodup_dotted node.config).map (Option.some_injective _)
    rw [List.map_map] at hdistinct
    rw [node.map_fieldPath_fieldIssues]
    refine hdistinct.sublist (.map _ (List.filter_sublist.append ?_))
    split
    · exact .refl _
    · exact List.nil_sublist _
  · intro other hchoices hlacks hrange
    rw [other.map_fieldPath_fieldIssues, node.map_fieldPath_fieldIssues,
      Json.requiredPaths_congr hchoices, List.filter_congr hlacks]
    simp only [hrange]

/-- A query of a local file, the name of which is a space without a break. -/
def DatabaseConfig.misplaced : DatabaseConfig where
  driver := .sqlite
  path := "\u00a0"
  operation := .query
  query := "select 1"

/-- Only the file is reported, with and without a server and a table. -/
theorem field_issues_follow_paths_misplaced :
    (Node.new "db" (.database .misplaced)).fieldIssues.map
        (fun issue => (issue.code, issue.fieldPath)) =
      [(.missingRequiredField, some "path")] ∧
    (Node.new "db" (.database { DatabaseConfig.misplaced with
        host := "localhost", port := some 5432, table := "orders" })
      ).fieldIssues.map (·.fieldPath) =
      (Node.new "db" (.database .misplaced)).fieldIssues.map (·.fieldPath) := by
  obtain ⟨_, _, _, hother⟩ :=
    field_issues_follow_paths (.new "db" (.database .misplaced))
  exact ⟨by decide, hother _ (by decide) (by decide) (by decide)⟩

end Flowgraph
