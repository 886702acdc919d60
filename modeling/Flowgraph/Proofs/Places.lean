import Flowgraph.Proofs.Adjacency

/-!
# Planning by places

A planner need not compare ids. It can look up once at which place of the list
of ids a node stands and keep all its tables by place. That is quick, and it can
go wrong in two ways in which planning by ids cannot: a place may lie behind the
end of a table, and a count may be lowered that is zero already. Here the tables
are kept in this way and every access is checked; `entry` and `amend` are the
only ones there are, so a result that is not a fault means that none of them
went wrong.

Nothing does go wrong while the tables are filled, and what comes out is
`Wiring.placed`, the wiring with a place for each id. All comparisons with
planning by ids have one form: a view of what is kept by id as what is kept by
place, and a step that commutes with it. `foldlM_eq_ok` lifts such a step to a
loop over a list.
-/

namespace Flowgraph

namespace Placed

variable {α β γ σ τ : Type}

/-! ## Checked access -/

/-- What stops planning by places. -/
inductive Fault where
  /-- There is no such place in a table. -/
  | outside (place : Nat)
  /-- The count at a place is to be lowered and is zero. -/
  | spent (place : Nat)
  deriving DecidableEq

/-- Reads the entry of a table at a place. -/
def entry (table : List β) (place : Nat) : Except Fault β :=
  match table[place]? with
  | some x => .ok x
  | none => .error (.outside place)

/-- Changes the entry of a table at a place. -/
def amend (table : List β) (place : Nat) (change : β → Except Fault β) :
    Except Fault (List β) := do
  let x ← change (← entry table place)
  return table.set place x

theorem ok_bind (x : β) (f : β → Except Fault γ) :
    (Except.ok x >>= f) = f x := rfl

section Ids

variable [DecidableEq α] {ids : List α} {id : α}

theorem entry_map (f : α → β) (h : id ∈ ids) :
    entry (ids.map f) (ids.idxOf id) = .ok (f id) := by
  rw [entry, List.getElem?_map, List.getElem?_idxOf h]
  rfl

theorem amend_map (f : α → β) (change : β → Except Fault β)
    (hids : ids.Nodup) (h : id ∈ ids) :
    amend (ids.map f) (ids.idxOf id) change =
      change (f id) >>= fun x => .ok (ids.map (Function.update f id x)) := by
  rw [amend, entry_map f h, ok_bind]
  refine congrArg (change (f id) >>= ·) (funext fun x => congrArg Except.ok ?_)
  refine List.ext_getElem (by simp) fun i hi hi' => ?_
  rw [List.length_map] at hi'
  rw [List.getElem_set, List.getElem_map, List.getElem_map,
    Function.update_apply]
  -- Ids do not repeat, so the place of `id` is the only one with this id.
  have hplace : ids.idxOf id = i ↔ ids[i] = id := by
    constructor
    · intro heq
      subst heq
      exact List.getElem_idxOf hi'
    · intro heq
      rw [← heq, hids.idxOf_getElem]
  simp only [hplace]

theorem idxOf?_eq_some {i : Nat} :
    ids.idxOf? id = some i ↔ id ∈ ids ∧ ids.idxOf id = i := by
  by_cases h : id ∈ ids
  · have hlt := List.idxOf_lt_length_of_mem h
    have hplace : ids.idxOf? id = some (ids.idxOf id) := by
      rw [List.idxOf?, List.findIdx?_eq_guard_findIdx_lt]
      exact Option.guard_pos (decide_eq_true hlt)
    rw [hplace, Option.some_inj, and_iff_right h]
  · rw [List.idxOf?_eq_none_iff.mpr h]
    simp [h]

theorem mem_map_idxOf {l : List α} (hin : l ⊆ ids) :
    ids.idxOf id ∈ l.map ids.idxOf ↔ id ∈ l := by
  refine ⟨fun hmem => ?_, List.mem_map_of_mem⟩
  obtain ⟨x, hx, heq⟩ := List.mem_map.mp hmem
  exact (List.idxOf_inj (hin hx)).mp heq ▸ hx

end Ids

/-! ## Loops over lists -/

/-- A loop over a list goes without a fault if each of its turns does. What each
turn needs may speak of the turns that are left. -/
theorem foldlM_eq_ok (view : τ → σ) (name : γ → β) (Fit : τ → List γ → Prop)
    {act : σ → β → Except Fault σ} {step : τ → γ → τ}
    (hstep : ∀ t x rest, Fit t (x :: rest) →
      act (view t) (name x) = .ok (view (step t x)) ∧ Fit (step t x) rest)
    (l : List γ) {t : τ} (hfit : Fit t l) :
    (l.map name).foldlM act (view t) = .ok (view (l.foldl step t)) := by
  induction l generalizing t with
  | nil => rfl
  | cons x rest ih =>
      obtain ⟨hact, hrest⟩ := hstep t x rest hfit
      rw [List.map_cons, List.foldlM_cons, hact, ok_bind, ih hrest,
        List.foldl_cons]

theorem filterM_eq_ok {name : γ → β} {test : β → Except Fault Bool}
    {p : γ → Bool} {l : List γ} (h : ∀ x ∈ l, test (name x) = .ok (p x)) :
    (l.map name).filterM test = .ok ((l.filter p).map name) := by
  have haux : ∀ kept, List.filterAuxM test (l.map name) kept =
      .ok (((l.filter p).map name).reverse ++ kept) := by
    induction l with
    | nil => exact fun _ => rfl
    | cons x rest ih =>
        intro kept
        obtain ⟨hx, hrest⟩ := List.forall_mem_cons.mp h
        rw [List.map_cons, List.filterAuxM, hx, ok_bind, ih hrest]
        cases hp : p x with
        | false => simp [hp]
        | true => simp [hp]
  rw [List.filterM, haux, ok_bind, List.append_nil, List.reverse_reverse]
  rfl

/-! ## Tables by place -/

/-- The ids of a graph and, for the place of each of them, the places that it
feeds and by how many it is fed. -/
structure Tables (α : Type) where
  ids : List α
  successors : List (List Nat)
  inDegree : List Nat
  deriving DecidableEq

namespace Tables

/-- Enters a link in both tables, unless it is there. -/
def link (tables : Tables α) (source target : Nat) :
    Except Fault (Tables α) := do
  if target ∈ (← entry tables.successors source) then return tables
  let successors ← amend tables.successors source
    fun places => .ok (places ++ [target])
  let inDegree ← amend tables.inDegree target fun count => .ok (count + 1)
  return { tables with successors, inDegree }

/-- Takes an edge: the link that it makes is entered if it leads from one node
to another one. -/
def take (tables : Tables String) (edge : Edge) :
    Except Fault (Tables String) :=
  if edge.isSelfLoop then .ok tables
  else
    match tables.ids.idxOf? edge.source.nodeId,
      tables.ids.idxOf? edge.target.nodeId with
    | some source, some target => tables.link source target
    | _, _ => .ok tables

/-- Fills the tables of a graph edge by edge. -/
def build (nodes : List Node) (edges : List Edge) :
    Except Fault (Tables String) :=
  let ids := nodeIds nodes
  edges.foldlM take
    ⟨ids, .replicate ids.length [], .replicate ids.length 0⟩

/-- The places that nothing feeds. -/
def starts (tables : Tables α) : Except Fault (List Nat) :=
  (List.range tables.ids.length).filterM fun place => do
    return (← entry tables.inDegree place) == 0

end Tables

end Placed

/-! ## Wirings by place -/

namespace Wiring

variable {α β : Type} [DecidableEq α] {w : Wiring α} {u v : α}

/-- Where a vertex stands in the list of vertices. -/
def place (w : Wiring α) (v : α) : Nat := w.vertices.idxOf v

/-- The tables of a wiring by place. -/
def placed (w : Wiring α) : Placed.Tables α where
  ids := w.vertices
  successors := w.vertices.map fun v => (w.successors v).map w.place
  inDegree := w.vertices.map w.inDegree

theorem place_inj (hu : u ∈ w.vertices) : w.place u = w.place v ↔ u = v :=
  List.idxOf_inj hu

theorem getElem?_place (hv : v ∈ w.vertices) :
    w.vertices[w.place v]? = some v :=
  List.getElem?_idxOf hv

theorem place_lt (hv : v ∈ w.vertices) : w.place v < w.vertices.length :=
  List.idxOf_lt_length_of_mem hv

theorem Sound.place_of_getElem? (h : w.Sound) {i : Nat}
    (hv : w.vertices[i]? = some v) : w.place v = i := by
  obtain ⟨hi, rfl⟩ := List.getElem?_eq_some_iff.mp hv
  exact h.vertices_nodup.idxOf_getElem i hi

theorem Sound.map_place_vertices (h : w.Sound) :
    w.vertices.map w.place = List.range w.vertices.length := by
  refine List.ext_getElem (by simp) fun i hi _ => ?_
  rw [List.getElem_map, List.getElem_range]
  exact h.vertices_nodup.idxOf_getElem i _

theorem entry_place (f : α → β) (hv : v ∈ w.vertices) :
    Placed.entry (w.vertices.map f) (w.place v) = .ok (f v) :=
  Placed.entry_map f hv

theorem amend_place (f : α → β) (change : β → Except Placed.Fault β)
    (h : w.Sound) (hv : v ∈ w.vertices) :
    Placed.amend (w.vertices.map f) (w.place v) change =
      change (f v) >>= fun x => .ok (w.vertices.map (Function.update f v x)) :=
  Placed.amend_map f change h.vertices_nodup hv

theorem entry_ids (hv : v ∈ w.vertices) :
    Placed.entry w.placed.ids (w.place v) = .ok v := by
  rw [Placed.entry, placed, getElem?_place hv]

theorem entry_successors (hv : v ∈ w.vertices) :
    Placed.entry w.placed.successors (w.place v) =
      .ok ((w.successors v).map w.place) :=
  entry_place _ hv

theorem entry_inDegree (hv : v ∈ w.vertices) :
    Placed.entry w.placed.inDegree (w.place v) = .ok (w.inDegree v) :=
  entry_place _ hv

theorem Sound.starts_placed (h : w.Sound) :
    w.placed.starts = .ok (w.starts.map w.place) := by
  rw [Placed.Tables.starts]
  show List.filterM _ (List.range w.vertices.length) = _
  rw [← h.map_place_vertices]
  refine Placed.filterM_eq_ok fun v hv => ?_
  rw [entry_inDegree hv]
  rfl

end Wiring

/-! ## Filling the tables -/

variable {nodes : List Node} {tables : PlanTables}

/-- Tables by id as tables by place. -/
def PlanTables.placed (ids : List String) (tables : PlanTables) :
    Placed.Tables String where
  ids := ids
  successors := ids.map fun id => (tables.successors id).map ids.idxOf
  inDegree := ids.map tables.inDegree

/-- An edge joins two nodes if it leads from one place to another one. -/
theorem connects_iff_places {edge : Edge} : edge.connects nodes = true ↔
    edge.isSelfLoop = false ∧ edge.source.nodeId ∈ nodeIds nodes ∧
      edge.target.nodeId ∈ nodeIds nodes := by
  rw [connects_iff, findNode?_isSome, findNode?_isSome, mem_nodeIds,
    mem_nodeIds, ← Bool.not_eq_true, isSelfLoop_iff]

theorem link_placed {ids : List String} {u v : String} (hids : ids.Nodup)
    (hu : u ∈ ids) (hv : v ∈ ids) (hin : tables.successors u ⊆ ids) :
    (tables.placed ids).link (ids.idxOf u) (ids.idxOf v) =
      .ok (PlanTables.placed ids
        (if v ∉ tables.successors u then
          ⟨Function.update tables.successors u (tables.successors u ++ [v]),
            Function.update tables.inDegree v (tables.inDegree v + 1)⟩
        else tables)) := by
  have hold : ids.idxOf v ∈ (tables.successors u).map ids.idxOf ↔
      v ∈ tables.successors u := Placed.mem_map_idxOf hin
  rw [Placed.Tables.link, PlanTables.placed, Placed.entry_map _ hu,
    Placed.ok_bind]
  by_cases hmem : v ∈ tables.successors u
  · rw [if_pos (hold.mpr hmem), if_neg (not_not_intro hmem)]
    rfl
  · rw [if_neg (mt hold.mp hmem), if_pos hmem, Placed.amend_map _ _ hids hu,
      Placed.amend_map _ _ hids hv]
    have hupdate : (fun id => (Function.update tables.successors u
        (tables.successors u ++ [v]) id).map ids.idxOf) =
        Function.update (fun id => (tables.successors id).map ids.idxOf) u
          ((tables.successors u).map ids.idxOf ++ [ids.idxOf v]) := by
      funext id
      by_cases hid : id = u
      · subst hid
        simp
      · simp [hid]
    simp only [PlanTables.placed, hupdate]
    rfl

theorem take_placed (edge : Edge)
    (h : ∀ id, tables.successors id ⊆ nodeIds nodes) :
    (tables.placed (nodeIds nodes)).take edge =
      .ok ((tables.take nodes edge).placed (nodeIds nodes)) := by
  by_cases hconnects : edge.connects nodes = true
  · obtain ⟨hloop, hsource, htarget⟩ := connects_iff_places.mp hconnects
    have hfrom : (tables.placed (nodeIds nodes)).ids.idxOf?
        edge.source.nodeId = some _ :=
      Placed.idxOf?_eq_some.mpr ⟨hsource, rfl⟩
    have hto : (tables.placed (nodeIds nodes)).ids.idxOf?
        edge.target.nodeId = some _ :=
      Placed.idxOf?_eq_some.mpr ⟨htarget, rfl⟩
    rw [Placed.Tables.take, hloop, if_neg Bool.false_ne_true, hfrom, hto]
    refine (link_placed (nodeIds_nodup nodes) hsource htarget (h _)).trans ?_
    rw [PlanTables.take]
    simp only [hconnects, true_and]
  · have htake : tables.take nodes edge = tables :=
      if_neg fun hnew => hconnects hnew.1
    rw [htake, Placed.Tables.take]
    split
    · rfl
    · next hloop =>
        split
        · next hsource htarget =>
            exact absurd (connects_iff_places.mpr ⟨eq_false_of_ne_true hloop,
              (Placed.idxOf?_eq_some.mp hsource).1,
              (Placed.idxOf?_eq_some.mp htarget).1⟩) hconnects
        · rfl

theorem PlanTables.successors_take_subset {edge : Edge}
    (h : ∀ id, tables.successors id ⊆ nodeIds nodes) (id : String) :
    (tables.take nodes edge).successors id ⊆ nodeIds nodes := by
  rw [PlanTables.take]
  split
  · next hnew =>
      have htarget := (connects_iff_places.mp hnew.1).2.2
      show Function.update tables.successors _ _ id ⊆ _
      rw [Function.update_apply]
      split
      · exact List.append_subset.mpr
          ⟨h _, List.cons_subset.mpr ⟨htarget, List.nil_subset _⟩⟩
      · exact h id
  · exact h id

/-- The tables are filled without a fault, and they are those of the wiring. -/
theorem build_eq (nodes : List Node) (edges : List Edge) :
    Placed.Tables.build nodes edges = .ok (wiring nodes edges).placed := by
  have hblank : PlanTables.placed (nodeIds nodes) .blank =
      ⟨nodeIds nodes, .replicate (nodeIds nodes).length [],
        .replicate (nodeIds nodes).length 0⟩ := by
    simp [PlanTables.placed, PlanTables.blank, List.map_const']
  have hfill := Placed.foldlM_eq_ok (PlanTables.placed (nodeIds nodes)) id
    (fun tables _ => ∀ id, tables.successors id ⊆ nodeIds nodes)
    (fun _ edge _ hin =>
      ⟨take_placed edge hin, PlanTables.successors_take_subset hin⟩)
    edges (t := .blank) fun _ => List.nil_subset _
  rw [List.map_id, foldl_take_edges, hblank] at hfill
  exact hfill

end Flowgraph
