import Flowgraph.Proofs.Doubles
import Flowgraph.Proofs.Extent
import Flowgraph.Proofs.Reloading

/-!
# Loading a saved document

A document that was made of a text can be saved and loaded again. The free JSON
in it stood a few containers inside the text and so leaves room for the ones
that it is written inside; its numbers were read from numerals and have numerals
of their own. What is loaded differs from what was saved in floating-point
numbers of the free JSON, which can end up in neighbours, and in temperatures: a
finite one is read back as it was, an infinite one is written as `null` and
lost.
-/

namespace Flowgraph

/-! ## Records of a text

What is read into a record comes from one container further in. -/

theorem Problem.lift_eq_ok {α : Type} {x : Except Malformed α} {a : α}
    (h : Problem.lift x = .ok a) : x = .ok a := by
  cases x with
  | error fault => cases h
  | ok b => exact congrArg Except.ok (Except.ok.inj h)

theorem Tree.refuse_ne_ok {α : Type} (wanted : String) (tree : Tree) (a : α) :
    tree.refuse wanted ≠ .ok a := by
  intro h
  obtain ⟨found, -, h⟩ := bind_eq_ok.mp h
  cases h

namespace Field

variable {α β : Type} {P : α → Prop} {n : Nat}

/-- Reading the field, from a tree with room for `n` containers, keeps a
property of the record. -/
def Keeps (P : α → Prop) (n : Nat) (field : Field Tree α) : Prop :=
  ∀ tree record record', tree.Within n → P record →
    field.read tree record = .ok record' → P record'

theorem keeps_of {name : String} {presence : Presence} {read : Reader β}
    {put : β → α → α}
    (h : ∀ tree b record, tree.Within n → read tree = .ok b → P record →
      P (put b record)) : (Field.of name presence read put).Keeps P n := by
  intro tree record record' htree hrecord hread
  obtain ⟨b, hb, hread⟩ := bind_eq_ok.mp hread
  rw [← Except.ok.inj hread]
  exact h tree b record htree hb hrecord

end Field

namespace Reader

variable {α : Type} {P : α → Prop} {n : Nat}

theorem keeps_members {fields : List (Field Tree α)}
    (h : ∀ field ∈ fields, field.Keeps P n) {ms : List (Key × Tree)}
    (hms : ∀ m ∈ ms, m.2.Within n) {close : Close} {names : List String}
    {record record' : α} (hrecord : P record)
    (hread : members fields ms close names record = .ok record') :
    P record' := by
  induction ms generalizing names record with
  | nil =>
      rw [members] at hread
      obtain ⟨-, -, hread⟩ := bind_eq_ok.mp hread
      split at hread
      · cases hread
      · exact Except.ok.inj hread ▸ hrecord
  | cons m rest ih =>
      obtain ⟨key, tree⟩ := m
      rw [List.forall_mem_cons] at hms
      rw [members] at hread
      obtain ⟨name, -, hread⟩ := bind_eq_ok.mp hread
      split at hread
      · obtain ⟨-, -, hread⟩ := bind_eq_ok.mp hread
        exact ih hms.2 hrecord hread
      · next field hfield =>
          split at hread
          · cases hread
          · obtain ⟨next, hnext, hread⟩ := bind_eq_ok.mp hread
            have hmem := List.mem_of_find?_eq_some hfield
            exact ih hms.2 (h field hmem tree record next hms.1 hrecord hnext)
              hread

theorem keeps_items {fields : List (Field Tree α)}
    (h : ∀ field ∈ fields, field.Keeps P n) {trees : List Tree}
    (htrees : ∀ t ∈ trees, t.Within n) {wanted : String} {index : Nat}
    {close : Close} {record record' : α} (hrecord : P record)
    (hread : items wanted index fields trees close record = .ok record') :
    P record' := by
  induction fields generalizing trees index record with
  | nil =>
      cases trees with
      | nil =>
          rw [items] at hread
          obtain ⟨-, -, hread⟩ := bind_eq_ok.mp hread
          exact Except.ok.inj hread ▸ hrecord
      | cons => cases hread
  | cons field rest ih =>
      rw [List.forall_mem_cons] at h
      cases trees with
      | nil =>
          rw [items] at hread
          obtain ⟨-, -, hread⟩ := bind_eq_ok.mp hread
          split at hread
          · exact ih h.2 (List.forall_mem_nil _) hrecord hread
          · cases hread
      | cons tree trees =>
          rw [List.forall_mem_cons] at htrees
          rw [items] at hread
          obtain ⟨next, hnext, hread⟩ := bind_eq_ok.mp hread
          exact ih h.2 htrees.2 (h.1 tree record next htrees.1 hrecord hnext)
            hread

/-- What a record has at the start and every field keeps, it has in the end. -/
theorem keeps_record {fields : List (Field Tree α)}
    (h : ∀ field ∈ fields, field.Keeps P n) {tree : Tree}
    (htree : tree.Within (n + 1)) {wanted : String} {start record : α}
    (hstart : P start)
    (hread : Reader.record wanted fields start tree = .ok record) :
    P record := by
  cases htree with
  | object close inside => exact keeps_members h inside hstart hread
  | list close inside => exact keeps_items h inside hstart hread
  | deep => cases hread
  | _ => exact absurd hread (Tree.refuse_ne_ok _ _ _)

theorem mem_of_mapM {read : Reader α} {trees : List Tree} {values : List α}
    (h : trees.mapM read = .ok values) {a : α} (ha : a ∈ values) :
    ∃ t ∈ trees, read t = .ok a := by
  induction trees generalizing values with
  | nil =>
      obtain rfl := Except.ok.inj h
      cases ha
  | cons t rest ih =>
      rw [List.mapM_cons] at h
      obtain ⟨b, hb, h⟩ := bind_eq_ok.mp h
      obtain ⟨bs, hbs, h⟩ := bind_eq_ok.mp h
      obtain rfl := Except.ok.inj h
      obtain rfl | ha := List.mem_cons.mp ha
      · exact ⟨t, List.mem_cons_self, hb⟩
      · obtain ⟨u, hu, hread⟩ := ih hbs ha
        exact ⟨u, List.mem_cons_of_mem _ hu, hread⟩

/-- Every item of a list was read one container further in. -/
theorem forall_mem_list {read : Reader α}
    (h : ∀ tree a, tree.Within n → read tree = .ok a → P a) {tree : Tree}
    (htree : tree.Within (n + 1)) {values : List α}
    (hread : Reader.list read tree = .ok values) : ∀ a ∈ values, P a := by
  cases htree with
  | list close inside =>
      rw [Reader.list] at hread
      obtain ⟨as, has, hread⟩ := bind_eq_ok.mp hread
      obtain ⟨-, -, hread⟩ := bind_eq_ok.mp hread
      obtain rfl := Except.ok.inj hread
      intro a ha
      obtain ⟨t, ht, hread⟩ := mem_of_mapM has ha
      exact h t a (inside t ht) hread
  | deep => cases hread
  | _ => exact absurd hread (Tree.refuse_ne_ok _ _ _)

theorem within_json {tree : Tree} (htree : tree.Within n) {j : Json}
    (hread : Reader.json tree = .ok j) : j.Within n := by
  obtain ⟨i, hi, rfl⟩ := map_eq_ok.mp (Problem.lift_eq_ok hread)
  exact (htree.json hi).canonical

theorem optional_eq_some {read : Reader α} {tree : Tree} {a : α}
    (h : Reader.optional read tree = .ok (some a)) : read tree = .ok a := by
  rw [Reader.optional.eq_def] at h
  split at h
  · cases h
  · obtain ⟨b, hb, hsome⟩ := map_eq_ok.mp h
    rw [hb, Option.some.inj hsome]

end Reader

/-! ## The free JSON of a loaded document -/

/-- Whether the free JSON of a node leaves room for the containers around it. -/
def Node.Within (n : Nat) (node : Node) : Prop :=
  ∀ j ∈ node.info, j.Within n

theorem Node.within_read {n : Nat} {tree : Tree} (htree : tree.Within (n + 1))
    {node : Node} (hread : Node.read tree = .ok node) : node.Within n := by
  have hstart : Node.Within n { id := "", config := .trigger } := nofun
  refine Reader.keeps_record ?_ htree hstart hread
  simp only [fields, List.forall_mem_cons, List.not_mem_nil, false_imp_iff,
    implies_true, and_true]
  refine ⟨?_, ?_, ?_, ?_, ?_, ?_⟩
  case refine_5 =>
    refine Field.keeps_of fun tree info node htree hinfo _ j hj => ?_
    obtain rfl : info = some j := hj
    exact Reader.within_json htree (Reader.optional_eq_some hinfo)
  all_goals exact Field.keeps_of fun _ _ _ _ _ h => h

theorem Graph.within_read {n : Nat} {tree : Tree} (htree : tree.Within (n + 3))
    {graph : Graph} (hread : Graph.read tree = .ok graph) :
    ∀ node ∈ graph.nodes, node.Within n := by
  have hstart : ∀ node ∈ ({} : Graph).nodes, node.Within n :=
    List.forall_mem_nil _
  refine Reader.keeps_record (n := n + 2)
    (P := fun graph : Graph => ∀ node ∈ graph.nodes, node.Within n) ?_ htree
    hstart hread
  simp only [fields, List.forall_mem_cons, List.not_mem_nil, false_imp_iff,
    implies_true, and_true]
  refine ⟨?_, ?_⟩
  · refine Field.keeps_of fun tree nodes graph htree hnodes _ => ?_
    exact Reader.forall_mem_list (fun _ _ h => Node.within_read h) htree hnodes
  · exact Field.keeps_of fun _ _ _ _ _ h => h

namespace Document

/-- Whether the free JSON of a document leaves room for the containers that it
is written inside. -/
structure Within (d : Document) : Prop where
  nodes : ∀ node ∈ d.graph.nodes, node.Within 123
  editorState : d.editorState.Within 126

theorem within_read {tree : Tree} (htree : tree.Within Tree.depthLimit)
    {d : Document} (hread : Document.read tree = .ok d) : d.Within := by
  have hstart : Document.Within ⟨0, .start, {}, .null⟩ :=
    ⟨List.forall_mem_nil _, ⟨Nat.zero_le _, List.forall_mem_nil _⟩⟩
  refine Reader.keeps_record (n := 126) ?_ htree hstart hread
  simp only [fields, List.forall_mem_cons, List.not_mem_nil, false_imp_iff,
    implies_true, and_true]
  refine ⟨?_, ?_, ?_, ?_⟩
  · exact Field.keeps_of fun _ _ _ _ _ h => ⟨h.nodes, h.editorState⟩
  · exact Field.keeps_of fun _ _ _ _ _ h => ⟨h.nodes, h.editorState⟩
  · exact Field.keeps_of fun _ _ _ htree hgraph h =>
      ⟨Graph.within_read htree hgraph, h.editorState⟩
  · exact Field.keeps_of fun _ _ _ htree hstate h =>
      ⟨h.nodes, Reader.within_json htree hstate⟩

/-- What a document is like that was made of a text. -/
theorem of_ofText {text : String} {d : Document} (h : ofText text = .ok d) :
    d.Within ∧ d.schemaVersion = supportedVersion := by
  rw [ofText] at h
  split at h
  · cases h
  · next document hread =>
      split at h
      · next hversion =>
          obtain rfl := Except.ok.inj h
          refine ⟨?_, hversion⟩
          obtain ⟨value, hvalue, hread⟩ := bind_eq_ok.mp hread
          split at hread
          · cases hread
          · obtain rfl := Except.ok.inj hread
            exact within_read (Tree.within_ofText _) hvalue
      · cases h

end Document

/-! ## How deep a document is -/

namespace Json

theorem depth_array_le {items : List Json} {n : Nat}
    (h : ∀ j ∈ items, j.depth ≤ n) : (array items).depth ≤ n + 1 :=
  Nat.succ_le_succ (itemsDepth_le_iff.mpr h)

theorem membersDepth_append (ms ms' : List (String × Json)) :
    membersDepth (ms ++ ms') = max (membersDepth ms) (membersDepth ms') := by
  induction ms with
  | nil => rw [List.nil_append, membersDepth, Nat.zero_max]
  | cons m rest ih => rw [List.cons_append, membersDepth, membersDepth, ih,
      Nat.max_assoc]

/-- A member that may be left out. -/
theorem membersDepth_member?_le {α : Type} {name : String} {write : α → Json}
    {value : Option α} {n : Nat} (h : ∀ a ∈ value, (write a).depth ≤ n) :
    membersDepth (member? name write value) ≤ n := by
  cases value with
  | none => exact Nat.zero_le _
  | some a =>
      exact membersDepth_le_iff.mpr (List.forall_mem_singleton.mpr (h a rfl))

end Json

theorem Tool.depth_toJson (tool : Tool) : tool.toJson.depth ≤ 2 := by
  cases tool <;>
    simp [toJson, TableSelector.toJson, Json.depth, Json.membersDepth]

namespace NodeConfig

theorem membersDepth_le (config : NodeConfig) :
    Json.membersDepth config.members ≤ 2 := by
  have hscalar {α : Type} (name : String) (write : α → Json) (value : Option α)
      (h : ∀ a, (write a).depth = 0) :
      Json.membersDepth (Json.member? name write value) ≤ 2 :=
    Json.membersDepth_member?_le fun a _ => by rw [h a]; decide
  cases config with
  | trigger | output | text | condition => exact Nat.zero_le _
  | llm c =>
      have hprompt := hscalar "systemPrompt" .string c.systemPrompt fun _ => rfl
      have htemperature :=
        hscalar "temperature" .single c.temperature fun _ => rfl
      simp only [members, LlmConfig.members, Json.membersDepth_append,
        List.cons_append, Json.membersDepth, Json.depth]
      omega
  | agent c =>
      have htool := c.tool.depth_toJson
      simp only [members, AgentConfig.members, Json.membersDepth, Json.depth]
      omega
  | telegram c =>
      have htemplate :=
        hscalar "messageTemplate" .string c.messageTemplate fun _ => rfl
      simp only [members, TelegramConfig.members, Json.membersDepth, Json.depth]
      omega
  | database c =>
      have hport :=
        hscalar "port" (fun n => .nat n.toNat) c.port fun _ => rfl
      simp only [members, DatabaseConfig.members, Json.membersDepth_append,
        List.cons_append, Json.membersDepth, Json.depth]
      omega

theorem depth_toJson (config : NodeConfig) : config.toJson.depth ≤ 3 := by
  have hmembers := config.membersDepth_le
  simp only [toJson, Json.depth, Json.membersDepth]
  omega

end NodeConfig

theorem Node.depth_toJson {node : Node} {n : Nat} (h : node.Within n)
    (hn : 3 ≤ n) : node.toJson.depth ≤ n + 1 := by
  have hconfig := node.config.depth_toJson
  have hdescription : Json.membersDepth
      (Json.member? "description" .string node.description) ≤ n :=
    Json.membersDepth_member?_le fun _ _ => Nat.zero_le _
  have hinfo : Json.membersDepth
      (Json.member? "meta" (fun j => j) node.info) ≤ n :=
    Json.membersDepth_member?_le fun j hj => (h j hj).depth_le
  simp only [toJson, Json.membersDepth_append, List.cons_append,
    Json.membersDepth, Json.depth]
  omega

theorem Endpoint.depth_toJson (endpoint : Endpoint) :
    endpoint.toJson.depth ≤ 1 := by
  have hport : Json.membersDepth
      (Json.member? "portId" .string endpoint.portId) ≤ 0 :=
    Json.membersDepth_member?_le fun _ _ => Nat.le_refl _
  simp only [toJson, Json.membersDepth, Json.depth]
  omega

theorem Edge.depth_toJson (edge : Edge) : edge.toJson.depth ≤ 2 := by
  have hsource := edge.source.depth_toJson
  have htarget := edge.target.depth_toJson
  simp only [toJson, Json.membersDepth, Json.depth]
  omega

theorem Graph.depth_toJson {graph : Graph} {n : Nat}
    (h : ∀ node ∈ graph.nodes, node.Within n) (hn : 3 ≤ n) :
    graph.toJson.depth ≤ n + 3 := by
  have hnodes : (Json.array (graph.nodes.map Node.toJson)).depth ≤ n + 2 := by
    refine Json.depth_array_le (List.forall_mem_map.mpr fun node hnode => ?_)
    exact Node.depth_toJson (h node hnode) hn
  have hedges : (Json.array (graph.edges.map Edge.toJson)).depth ≤ 3 :=
    Json.depth_array_le
      (List.forall_mem_map.mpr fun edge _ => edge.depth_toJson)
  rw [toJson, Json.depth]
  simp only [Json.membersDepth]
  omega

theorem Document.depth_le {d : Document} (h : d.Within) :
    d.toJson.depth ≤ Tree.depthLimit := by
  have hgraph := Graph.depth_toJson h.nodes (by decide)
  have hstate := h.editorState.depth_le
  have hmoment : d.exportedAt.toJson.depth = 0 := rfl
  have hversion : (Json.nat d.schemaVersion.toNat).depth = 0 := rfl
  rw [toJson, Json.depth]
  simp only [Json.membersDepth, hmoment, hversion, Tree.depthLimit]
  omega

/-! ## Reading it back -/

namespace Json

/-- The numeral of a number is read as some number, and an infinite number is
read as `null`. -/
theorem exists_reread_number {n : Number} (h : n.Fits) :
    ∃ j, (number n).reread = .ok j := by
  rw [reread, toTree, numberTree]
  cases n with
  | integer k => exact ⟨_, congrArg (Except.map number) (Numeral.value_ofInt h)⟩
  | double x =>
      rw [Number.numeral?]
      split
      · next m hm =>
          obtain ⟨hfinite, hm⟩ := Option.ite_none_right_eq_some.mp hm
          obtain rfl := Option.some.inj hm
          obtain ⟨y, hy⟩ := Layout.value_numeral_double hfinite
          exact ⟨_, congrArg (Except.map number) hy⟩
      · exact ⟨.null, rfl⟩
  | single x =>
      rw [Number.numeral?]
      split
      · next m hm =>
          obtain ⟨hfinite, hm⟩ := Option.ite_none_right_eq_some.mp hm
          obtain rfl := Option.some.inj hm
          obtain ⟨y, hy, -⟩ := Layout.value_numeral_single hfinite
          exact ⟨_, congrArg (Except.map number) hy⟩
      · exact ⟨.null, rfl⟩

/-- What a number is read as when it is read as free JSON. -/
def settledNumber (n : Number) : Json :=
  match (number n).reread with
  | .ok j => j
  | .error _ => .null

mutual

/-- The value with all numbers as they are read. -/
def settled : Json → Json
  | .number n => settledNumber n
  | .array items => .array (settledItems items)
  | .object members => .object (settledMembers members)
  | j => j

/-- `settled` for items. -/
def settledItems : List Json → List Json
  | [] => []
  | j :: rest => j.settled :: settledItems rest

/-- `settled` for members. -/
def settledMembers : List (String × Json) → List (String × Json)
  | [] => []
  | (k, j) :: rest => (k, j.settled) :: settledMembers rest

end

theorem settled_array (items : List Json) :
    (array items).settled = .array (items.map settled) := by
  have hitems : settledItems items = items.map settled := by
    induction items with
    | nil => rfl
    | cons j rest ih => rw [settledItems, ih, List.map_cons]
  rw [settled, hitems]

theorem settled_object (members : List (String × Json)) :
    (object members).settled =
      .object (members.map fun m => (m.1, m.2.settled)) := by
  have hmembers : settledMembers members =
      members.map fun m => (m.1, m.2.settled) := by
    induction members with
    | nil => rfl
    | cons m rest ih => rw [settledMembers, ih, List.map_cons]
  rw [settled, hmembers]

/-- Free JSON whose whole numbers fit is read with all numbers settled. -/
theorem reread_eq_settled {j : Json} (h : ∀ n ∈ j.numbers, n.Fits) :
    j.reread = .ok j.settled := by
  induction j using Json.induction with
  | null | bool | string => rfl
  | number n =>
      obtain ⟨i, hi⟩ := exists_reread_number (h n List.mem_cons_self)
      rw [settled, settledNumber, hi]
  | array items ih =>
      have hitems : List.Forall₂ (fun j i => j.reread = .ok i) items
          (items.map settled) :=
        List.forall₂_map_right_iff.mpr (List.forall₂_same.mpr fun j hj =>
          ih j hj fun n hn => h n (mem_itemNumbers.mpr ⟨j, hj, hn⟩))
      rw [reread, toTree, Tree.json, jsonItems_of hitems, settled_array]
      rfl
  | object members ih =>
      have hmembers : RereadMembers members
          (members.map fun m => (m.1, m.2.settled)) :=
        List.forall₂_map_right_iff.mpr (List.forall₂_same.mpr fun m hm =>
          ⟨rfl, ih m hm fun n hn => h n (mem_memberNumbers.mpr ⟨m, hm, hn⟩)⟩)
      rw [reread, toTree, Tree.json, jsonMembers_of hmembers, settled_object]
      rfl

theorem exists_read {j : Json} (h : ∀ n ∈ j.numbers, n.Fits) :
    ∃ i, Reader.json j.toTree = .ok i := by
  have hjson : j.toTree.json = .ok j.settled := reread_eq_settled h
  refine ⟨j.settled.canonical, ?_⟩
  rw [Reader.json, hjson]
  rfl

end Json

theorem Node.exists_rereadInfo {node : Node} {n : Nat} (h : node.Within n) :
    ∃ info, rereadInfo node.info = .ok info := by
  cases hinfo : node.info with
  | none => exact ⟨none, rfl⟩
  | some j =>
      obtain ⟨i, hi⟩ := Json.exists_read (h j hinfo).fits
      rw [rereadInfo, Reader.optional.eq_def]
      split
      · exact ⟨none, rfl⟩
      · exact ⟨some i, by rw [hi]; rfl⟩

/-- A finite temperature is read back, an infinite one is lost. -/
theorem NodeConfig.rereadTemperature_eq (temperature : Option Single) :
    rereadTemperature temperature =
      .ok (temperature.filter (·.isFinite)) := by
  cases temperature with
  | none => rfl
  | some x =>
      cases hfinite : x.isFinite with
      | true =>
          obtain ⟨y, hy, hconvert⟩ := Layout.value_numeral_single hfinite
          have hreread :
              (Json.single x).reread = .ok (.number (.double y)) := by
            rw [Json.reread, Json.single, Json.toTree, Json.numberTree,
              Number.numeral?, if_pos hfinite]
            exact congrArg (Except.map Json.number) hy
          rw [rereadTemperature, hreread, Option.filter_some_pos hfinite,
            ← hconvert]
          rfl
      | false =>
          have hreread : (Json.single x).reread = .ok .null := by
            rw [Json.reread, Json.single, Json.toTree, Json.numberTree,
              Number.numeral?, if_neg (by simp [hfinite])]
            rfl
          rw [rereadTemperature, hreread,
            Option.filter_some_neg (by simp [hfinite])]
          rfl

/-- The node that a saved node is read as: without an infinite temperature, and
with its free JSON as it was read. -/
def Node.reloaded (node : Node) (info : Option Json) : Node :=
  { node with
    info
    config := node.config.withTemperature
      (node.config.temperature?.filter (·.isFinite)) }

/-- A document that was made of a text can be saved and loaded: its nodes come
back one by one, its edges as they were. -/
theorem Document.exists_reloaded {text : String} {d : Document}
    (h : ofText text = .ok d) :
    ∃ (d' : Document) (info : Node → Option Json),
      ofText d.toText = .ok d' ∧ d'.graph.edges = d.graph.edges ∧
      d'.graph.nodes = d.graph.nodes.map fun node =>
        node.reloaded (info node) := by
  obtain ⟨hwithin, hversion⟩ := of_ofText h
  choose! info hinfo using fun node (hmem : node ∈ d.graph.nodes) =>
    Node.exists_rereadInfo (hwithin.nodes node hmem)
  have hnodes : List.Forall₂
      (fun node node' => Node.read node.toJson.toTree = .ok node') d.graph.nodes
      (d.graph.nodes.map fun node => node.reloaded (info node)) :=
    List.forall₂_map_right_iff.mpr (List.forall₂_same.mpr fun node hmem =>
      node.read_toJson (NodeConfig.rereadTemperature_eq _) (hinfo node hmem))
  obtain ⟨state, hstate⟩ := Json.exists_read hwithin.editorState.fits
  have hread := d.ofText_toText (depth_le hwithin)
    (d.graph.read_toJson hnodes) hstate
  exact ⟨_, info, hread.trans (if_pos hversion), rfl, rfl⟩

end Flowgraph
