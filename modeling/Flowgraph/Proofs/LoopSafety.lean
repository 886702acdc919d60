import Flowgraph.Proofs.Queues
import Flowgraph.Proofs.Reach
import Flowgraph.Proofs.Sorting

/-!
# The loops of planning are safe

Sorting and walking by place are the loops of sorting and walking by ids, seen
by place: a round takes the view of one state to the view of the next one. This
is more than it seems, since the rounds are checked. A vertex that is released
waited for the one that is taken, so its count is not zero; and everything that
is fed is a vertex, so its place is in the tables. The invariants by ids say
both, on circles just as without them, and `Safe.of_invariant` does the rest.
-/

namespace Flowgraph

namespace Wiring

open Placed

variable {α β : Type} [DecidableEq α] {w : Wiring α} {u v : α}
  {s : Sorting α}

/-! ## Queues of vertices by place -/

/-- A state whose queue has been entered by vertices that have left it and by
vertices that wait in it. -/
def queued (w : Wiring α) (books : β) (left queue : List α) : Queued β where
  books := books
  queue := queue.map w.place
  entered := (left ++ queue).map w.place
  left := left.map w.place

theorem push_queued (books : β) (left queue : List α) (v : α) :
    (w.queued books left queue).push (w.place v) =
      w.queued books left (queue ++ [v]) := by
  simp [queued, Queued.push]

theorem round?_queued (serve : Queued β → Nat → Except Fault (Queued β))
    (books : β) (left queue : List α) (v : α) :
    round? serve (w.queued books left (v :: queue)) =
      some (serve (w.queued books (left ++ [v]) queue) (w.place v)) := by
  simp [queued, round?]

theorem logged_queued {books : β} {left queue : List α}
    (hin : left ++ queue ⊆ w.vertices) (hnodup : (left ++ queue).Nodup) :
    Logged w.vertices.length (w.queued books left queue) where
  inside place hplace := by
    obtain ⟨v, hv, rfl⟩ := List.mem_map.mp hplace
    exact place_lt (hin hv)
  once := hnodup.map_on fun u hu v _ heq => (place_inj (hin hu)).mp heq
  in_turn := List.map_append

/-! ## Sorting by place -/

/-- A sorting by place. -/
def Sorting.placed (w : Wiring α) (s : Sorting α) : Queued (Tally α) :=
  w.queued ⟨w.vertices.map s.count, s.order⟩ s.order s.queue

/-- Where a vertex waits for something it can be released. -/
theorem Sound.release_placed (h : w.Sound) {s : Sorting α}
    (hv : v ∈ w.vertices) (hpos : 0 < s.count v) :
    Placed.release (s.placed w) (w.place v) =
      .ok ((s.release v).placed w) := by
  obtain ⟨n, hn⟩ := Nat.exists_eq_add_one.mpr hpos
  have hcount : Function.update s.count v n = (s.release v).count := by
    funext u
    rw [Function.update_apply, Sorting.count_release]
    split
    · next huv => rw [huv, hn, Nat.add_sub_cancel]
    · rfl
  have hlower : Placed.lower (w.place v) (s.count v) = .ok n := by
    rw [hn]
    rfl
  have hzero : (s.release v).count v = 0 ↔ s.count v ≤ 1 := by
    rw [Sorting.count_release, if_pos rfl]
    omega
  simp only [Placed.release, Sorting.placed, queued]
  rw [amend_place _ _ h hv, hlower, ok_bind, ok_bind, hcount,
    entry_place _ hv, ok_bind, Sorting.queue_release, Sorting.order_release]
  split
  · next hspent =>
      rw [if_pos (hzero.mp hspent)]
      exact congrArg Except.ok (push_queued _ _ _ _)
  · next hwaits =>
      rw [if_neg (mt hzero.mpr hwaits)]
      rfl

/-- So can vertices that wait for something, one after another. -/
theorem Sound.foldlM_release_placed (h : w.Sound) {s : Sorting α} {vs : List α}
    (hnodup : vs.Nodup) (hvs : ∀ v ∈ vs, v ∈ w.vertices ∧ 0 < s.count v) :
    (vs.map w.place).foldlM Placed.release (s.placed w) =
      .ok ((vs.foldl Sorting.release s).placed w) := by
  refine foldlM_eq_ok (Sorting.placed w) w.place (fun s vs => vs.Nodup ∧
    ∀ v ∈ vs, v ∈ w.vertices ∧ 0 < s.count v) ?_ vs ⟨hnodup, hvs⟩
  intro s v rest hfit
  obtain ⟨hnodup, hvs⟩ := hfit
  obtain ⟨⟨hv, hpos⟩, hrest⟩ := List.forall_mem_cons.mp hvs
  obtain ⟨hnew, hnodup⟩ := List.nodup_cons.mp hnodup
  refine ⟨h.release_placed hv hpos, hnodup, fun u hu => ?_⟩
  rw [Sorting.count_release, if_neg fun huv : u = v => hnew (huv ▸ hu)]
  exact hrest u hu

/-- A round of sorting by place does what a step of sorting does. -/
theorem Consistent.round?_placed (h : w.Sound) {s s' : Sorting α}
    (hs : w.Consistent s) (hstep : w.sortStep s = some s')
    (ht : w.Takes s v s') :
    round? w.placed.sort (s.placed w) = some (.ok (s'.placed w)) := by
  have hv := (hs.head ht).1
  let taken : Sorting α := ⟨s.waiting, s.queue.tail, s.order ++ [v]⟩
  have hnext : (w.successors v).foldl Sorting.release taken = s' := by
    rw [sortStep, ht.queue_eq] at hstep
    exact Option.some_inj.mp hstep
  -- Whatever the head feeds waits for the head, so its count is not zero.
  have hwaiting : ∀ u ∈ w.successors v, u ∈ w.vertices ∧ 0 < s.count u := by
    intro u hu
    refine ⟨h.target_mem (mem_successors.mp hu), ?_⟩
    rw [hs.count_eq]
    exact List.length_pos_of_mem ((hs.mem_pending_head ht).mpr hu)
  have hreleased := h.foldlM_release_placed (s := taken)
    (h.successors_nodup v) hwaiting
  rw [Sorting.placed, ht.queue_eq, round?_queued, Tables.sort, entry_ids hv,
    ok_bind, entry_successors hv, ok_bind, ← hnext]
  exact congrArg some hreleased

theorem sortUpTo_succ {count : Nat} {s t : Sorting α}
    (h : w.sortStep (w.sortUpTo count s) = some t) :
    w.sortUpTo (count + 1) s = t := by
  induction count generalizing s with
  | zero =>
      rw [sortUpTo] at h
      rw [sortUpTo, h]
      rfl
  | succ count ih =>
      rw [sortUpTo] at h ⊢
      cases hstep : w.sortStep s with
      | none =>
          rw [hstep] at h
          exact absurd (h.symm.trans hstep) (Option.some_ne_none t)
      | some next =>
          rw [hstep] at h
          exact ih h

theorem Sound.consistent_sortUpTo (h : w.Sound) (count : Nat) :
    w.Consistent (w.sortUpTo count w.unsorted) :=
  (consistent_unsorted h).sortUpTo h count

/-- The state of a loop that is the one of sorting after as many steps. -/
def InStep (w : Wiring α) (s : Queued (Tally α)) : Prop :=
  (w.sortUpTo s.left.length w.unsorted).placed w = s

theorem inStep_unsorted (w : Wiring α) : w.InStep (w.unsorted.placed w) := rfl

theorem InStep.consistent (h : w.Sound) {s : Queued (Tally α)}
    (hs : w.InStep s) : ∃ t, w.Consistent t ∧ t.placed w = s :=
  ⟨_, h.consistent_sortUpTo _, hs⟩

theorem InStep.round (h : w.Sound) {s : Queued (Tally α)} (hs : w.InStep s) :
    s.queue = [] ∨
      ∃ s', round? w.placed.sort s = some (.ok s') ∧ w.InStep s' := by
  have hconsistent := h.consistent_sortUpTo s.left.length
  rcases w.sortStep_cases h (w.sortUpTo s.left.length w.unsorted) with
    ⟨hnil, _⟩ | ⟨v, t, hsome, ht⟩
  · refine .inl ?_
    rw [← hs, Sorting.placed, hnil]
    rfl
  · have hround := hconsistent.round?_placed h hsome ht
    rw [hs] at hround
    -- The step takes one vertex, so the log is longer by one.
    have hleft : (t.placed w).left.length = s.left.length + 1 := by
      have hlen := congrArg (fun s => s.left.length) hs
      simp only [Sorting.placed, queued, List.length_map] at hlen
      simp only [Sorting.placed, queued, List.length_map]
      rw [ht.order_next, List.length_append, List.length_singleton, hlen]
    refine .inr ⟨_, hround, ?_⟩
    rw [InStep, hleft, sortUpTo_succ hsome]

theorem Consistent.getsTo_sortUpTo (h : w.Sound) (count : Nat) :
    ∀ {s : Sorting α}, w.Consistent s →
      GetsTo w.placed.sort (s.placed w) ((w.sortUpTo count s).placed w) := by
  induction count with
  | zero => exact fun _ => .refl
  | succ count ih =>
      intro s hs
      rw [Wiring.sortUpTo]
      rcases w.sortStep_cases h s with ⟨_, hnone⟩ | ⟨v, s', hsome, ht⟩
      · rw [hnone]
      · rw [hsome]
        exact .head (hs.round?_placed h hsome ht) (ih (hs.step h ht))

theorem Consistent.subset_vertices (hs : w.Consistent s) :
    s.order ++ s.queue ⊆ w.vertices :=
  fun v hv => ((hs.ready_iff v).mp hv).1

theorem Consistent.logged (hs : w.Consistent s) :
    Logged w.vertices.length (s.placed w) :=
  logged_queued hs.subset_vertices hs.nodup

/-- Sorting by place is safe, and it ends with the order. -/
theorem Sound.safe_sort (h : w.Sound) : Safe w.vertices.length w.placed.sort
    (w.unsorted.placed w) (w.sorted.placed w) := by
  refine .of_invariant (I := w.InStep) ?_ (fun s => InStep.round h)
    (inStep_unsorted w) ((consistent_unsorted h).getsTo_sortUpTo h _) ?_
  · intro s hs
    obtain ⟨t, ht, rfl⟩ := hs.consistent h
    exact ht.logged
  · rw [Sorting.placed, queue_sorted h]
    rfl

theorem Sound.unsorted_placed (h : w.Sound) :
    w.placed.unsorted = .ok (w.unsorted.placed w) := by
  have hcounts : w.vertices.map w.unsorted.count = w.placed.inDegree := by
    refine List.map_congr_left fun v _ => ?_
    rw [(consistent_unsorted h).count_eq]
    simp [pending, unsorted, inDegree]
  rw [Tables.unsorted, h.starts_placed, ok_bind, ← hcounts]
  rfl

/-! ## Walking by place -/

/-- A walk by place; the vertices that are done have left the queue. -/
def Walk.placed (w : Wiring α) (done : List α) (s : Walk α) :
    Queued (List Bool) :=
  w.queued (w.vertices.map fun v => decide (v ∈ s.reached)) done s.queue

theorem Sound.mark_placed (h : w.Sound) {s : Walk α} (done : List α)
    (hv : v ∈ w.vertices) (hnew : v ∉ s.reached) :
    Placed.mark (s.placed w done) (w.place v) =
      .ok ((s.visit v).placed w done) := by
  have hmarks : Function.update (fun u => decide (u ∈ s.reached)) v true =
      fun u => decide (u ∈ s.reached ++ [v]) := by
    funext u
    by_cases hu : u = v
    · subst hu
      simp
    · simp [hu]
  simp only [Placed.mark, Walk.placed, queued]
  rw [amend_place _ _ h hv, ok_bind, ok_bind, hmarks, Walk.visit, if_neg hnew]
  exact congrArg Except.ok (push_queued _ _ _ _)

theorem Sound.visit_placed (h : w.Sound) {s : Walk α} (done : List α)
    (hv : v ∈ w.vertices) :
    Placed.visit (s.placed w done) (w.place v) =
      .ok ((s.visit v).placed w done) := by
  have hmark : entry (s.placed w done).books (w.place v) =
      .ok (decide (v ∈ s.reached)) := entry_place _ hv
  rw [Placed.visit, hmark, ok_bind]
  by_cases hold : v ∈ s.reached
  · rw [if_pos (decide_eq_true hold), Walk.visit, if_pos hold]
    rfl
  · rw [if_neg (by simpa using hold)]
    exact h.mark_placed done hv hold

theorem Sound.foldlM_visit_placed (h : w.Sound) (done : List α) {vs : List α}
    (hvs : vs ⊆ w.vertices) (s : Walk α) :
    (vs.map w.place).foldlM Placed.visit (s.placed w done) =
      .ok ((vs.foldl Walk.visit s).placed w done) := by
  refine foldlM_eq_ok (Walk.placed w done) w.place
    (fun _ vs => vs ⊆ w.vertices) ?_ vs hvs
  intro s v rest hvs
  obtain ⟨hv, hrest⟩ := List.cons_subset.mp hvs
  exact ⟨h.visit_placed done hv, hrest⟩

/-- A round of walking by place does what a step of walking does. -/
theorem Exploring.round?_placed (h : w.Sound) {s s' : Walk α} {done : List α}
    (hs : w.Exploring done s) (hstep : w.walkStep s = some s')
    (ht : w.Follows s v s') :
    round? w.placed.walk (s.placed w done) =
      some (.ok (s'.placed w (done ++ [v]))) := by
  have hv : v ∈ w.vertices := by
    refine hs.subset_vertices h ?_
    rw [hs.reached_eq, ht.queue_eq]
    simp
  have hnext : (w.successors v).foldl Walk.visit ⟨s.reached, s.queue.tail⟩ =
      s' := by
    rw [walkStep, ht.queue_eq] at hstep
    exact Option.some_inj.mp hstep
  have hfed : w.successors v ⊆ w.vertices :=
    fun u hu => h.target_mem (mem_successors.mp hu)
  have hvisited :=
    h.foldlM_visit_placed (done ++ [v]) hfed ⟨s.reached, s.queue.tail⟩
  rw [Walk.placed, ht.queue_eq, round?_queued, Tables.walk,
    entry_successors hv, ok_bind, ← hnext]
  exact congrArg some hvisited

theorem exploring_round (h : w.Sound) (s : Queued (List Bool)) :
    (∃ done t, w.Exploring done t ∧ t.placed w done = s) → s.queue = [] ∨
      ∃ s', round? w.placed.walk s = some (.ok s') ∧
        ∃ done t, w.Exploring done t ∧ t.placed w done = s' := by
  intro hs
  obtain ⟨done, t, ht, rfl⟩ := hs
  rcases w.walkStep_cases h t with ⟨hnil, _⟩ | ⟨v, t', hsome, hfollows⟩
  · refine .inl ?_
    rw [Walk.placed, hnil]
    rfl
  · exact .inr ⟨_, ht.round?_placed h hsome hfollows, _, t',
      ht.step h hfollows, rfl⟩

theorem Exploring.getsTo_walkUpTo (h : w.Sound) (count : Nat) :
    ∀ {done : List α} {s : Walk α}, w.Exploring done s →
      ∃ done', GetsTo w.placed.walk (s.placed w done)
        ((w.walkUpTo count s).placed w done') := by
  induction count with
  | zero => exact fun {done} _ _ => ⟨done, .refl⟩
  | succ count ih =>
      intro done s hs
      rw [Wiring.walkUpTo]
      rcases w.walkStep_cases h s with ⟨_, hnone⟩ | ⟨v, s', hsome, ht⟩
      · rw [hnone]
        exact ⟨done, .refl⟩
      · rw [hsome]
        obtain ⟨done', hgets⟩ := ih (hs.step h ht)
        exact ⟨done', .head (hs.round?_placed h hsome ht) hgets⟩

theorem Exploring.logged (h : w.Sound) {s : Walk α} {done : List α}
    (hs : w.Exploring done s) :
    Logged w.vertices.length (s.placed w done) := by
  refine logged_queued ?_ ?_
  · rw [← hs.reached_eq]
    exact hs.subset_vertices h
  · rw [← hs.reached_eq]
    exact hs.nodup

/-- Walking by place is safe, and in the end the marks are on the vertices that
can be reached. -/
theorem Sound.safe_walk (h : w.Sound) : ∃ walked,
    Safe w.vertices.length w.placed.walk
      (Walk.placed w [] ⟨w.starts, w.starts⟩) walked ∧
    walked.books = w.vertices.map fun v => decide (v ∈ w.reachable) := by
  obtain ⟨done, hgets⟩ :=
    (exploring_begin h).getsTo_walkUpTo h w.vertices.length
  -- Everything that was reached is done, so nothing is left in the queue.
  have hqueue : (w.walkUpTo w.vertices.length
      ⟨w.starts, w.starts⟩).queue = [] := by
    have hlen := congrArg List.length h.exploring_end.reached_eq
    rw [List.length_append, reachable] at hlen
    exact List.length_eq_zero_iff.mp (by omega)
  refine ⟨_, .of_invariant
    (I := fun s => ∃ done t, w.Exploring done t ∧ t.placed w done = s)
    ?_ (exploring_round h) ⟨_, _, exploring_begin h, rfl⟩ hgets ?_, rfl⟩
  · intro s hs
    obtain ⟨done, t, ht, rfl⟩ := hs
    exact ht.logged h
  · rw [Walk.placed, hqueue]
    rfl

theorem Sound.unwalked_placed (h : w.Sound) :
    w.placed.unwalked = .ok (Walk.placed w [] ⟨w.starts, w.starts⟩) := by
  have hblank : (⟨.replicate w.placed.ids.length false, [], [], []⟩ :
      Queued (List Bool)) = Walk.placed w [] ⟨[], []⟩ := by
    simp [Walk.placed, queued, placed, List.map_const']
  have hstarts : w.starts.Nodup := h.vertices_nodup.filter _
  have hvisited : w.starts.foldl Walk.visit ⟨[], []⟩ =
      ⟨w.starts, w.starts⟩ := by
    rw [Walk.foldl_visit hstarts]
    simp
  rw [Tables.unwalked, h.starts_placed, ok_bind, hblank, ← hvisited]
  refine foldlM_eq_ok (Walk.placed w []) w.place
    (fun s vs => (s.reached ++ vs).Nodup ∧ vs ⊆ w.vertices) ?_ w.starts
    ⟨hstarts, List.filter_subset_self _⟩
  intro s v rest hfit
  obtain ⟨hnodup, hin⟩ := hfit
  obtain ⟨hv, hrest⟩ := List.cons_subset.mp hin
  have hnew : v ∉ s.reached := not_mem_front_of_nodup hnodup
  refine ⟨h.mark_placed [] hv hnew, ?_, hrest⟩
  rw [Walk.visit, if_neg hnew]
  simpa using hnodup

/-- A vertex has not been taken if its place is none of those taken. -/
theorem forall_left_ne {l : List α} (hin : l ⊆ w.vertices) :
    (∀ i ∈ l.map w.place, w.vertices[i]? ≠ some u) ↔ u ∉ l := by
  constructor
  · intro hne hu
    exact hne _ (List.mem_map_of_mem hu) (getElem?_place (hin hu))
  · intro hu i hi heq
    obtain ⟨v, hv, rfl⟩ := List.mem_map.mp hi
    rw [getElem?_place (hin hv), Option.some_inj] at heq
    exact hu (heq ▸ hv)

end Wiring

/-! ## The loops of planning -/

open Placed

variable {nodes : List Node} {edges : List Edge}

/-- The counts of a sorting say what the edges say: the count of a node is the
number of nodes that feed it and have not left the queue, and a node has entered
the queue just when this is none. -/
def CountsAgree (nodes : List Node) (edges : List Edge)
    (s : Queued (Tally String)) : Prop :=
  ∀ i id, (nodeIds nodes)[i]? = some id → ∃ count : Nat,
    s.books.counts[i]? = some count ∧
    (count : ℕ∞) = {u | Linked nodes edges u id ∧
      ∀ j ∈ s.left, (nodeIds nodes)[j]? ≠ some u}.encard ∧
    (i ∈ s.entered ↔ count = 0)

theorem countsAgree_placed {s : Wiring.Sorting String}
    (hs : (wiring nodes edges).Consistent s) :
    CountsAgree nodes edges (s.placed (wiring nodes edges)) := by
  intro i id (hid : (wiring nodes edges).vertices[i]? = some id)
  have h := wiring_sound nodes edges
  have hin := hs.subset_vertices
  refine ⟨s.count id, ?_, ?_, ?_⟩
  · show ((wiring nodes edges).vertices.map s.count)[i]? = _
    rw [List.getElem?_map, hid]
    rfl
  · have hset : {u | Linked nodes edges u id ∧
        ∀ j ∈ (s.placed (wiring nodes edges)).left,
          (nodeIds nodes)[j]? ≠ some u} =
        {u | u ∈ (wiring nodes edges).pending s.order id} := by
      ext u
      show _ ∧ _ ↔ u ∈ (wiring nodes edges).pending s.order id
      rw [Wiring.mem_pending, feeds_wiring_eq_linked]
      refine and_congr_right fun _ => ?_
      exact Wiring.forall_left_ne (List.append_subset.mp hin).1
    rw [hs.count_eq, hset, encard_of_nodup]
    exact (h.predecessors_nodup id).filter _
  · show i ∈ (s.order ++ s.queue).map (wiring nodes edges).place ↔ _
    rw [← h.place_of_getElem? hid, hs.count_eq, List.length_eq_zero_iff]
    refine (mem_map_idxOf hin).trans ?_
    rw [hs.ready_iff, and_iff_right (List.mem_of_getElem? hid)]

/-- Planning by places goes well for every graph, and it is planning by ids. The
tables are filled without a fault, and both loops are safe: no place outside the
tables is read, no count that is zero is lowered, no place enters the queue
twice, and after no more rounds than there are ids the loop is over. All along,
sorting is in step with sorting by ids and its counts say what the edges say,
with circles just as without them. In the end the order and the marks are those
of planning by ids. -/
theorem planning_loops_safe (nodes : List Node) (edges : List Edge) :
    ∃ tables unsorted sorted unwalked walked,
      Tables.build nodes edges = .ok tables ∧ tables.ids = nodeIds nodes ∧
      tables.unsorted = .ok unsorted ∧
      Safe (nodeIds nodes).length tables.sort unsorted sorted ∧
      (∀ s, GetsTo tables.sort unsorted s →
        (wiring nodes edges).InStep s ∧ CountsAgree nodes edges s) ∧
      sorted.books.order = (wiring nodes edges).order ∧
      tables.unwalked = .ok unwalked ∧
      Safe (nodeIds nodes).length tables.walk unwalked walked ∧
      walked.books = (nodeIds nodes).map fun id =>
        decide (id ∈ (wiring nodes edges).reachable) := by
  have h := wiring_sound nodes edges
  obtain ⟨walked, hwalk, hmarks⟩ := h.safe_walk
  refine ⟨_, _, _, _, walked, build_eq nodes edges, rfl, h.unsorted_placed,
    h.safe_sort, fun s hs => ?_, rfl, h.unwalked_placed, hwalk, hmarks⟩
  have hstep : (wiring nodes edges).InStep s :=
    getsTo_invariant (fun s => Wiring.InStep.round h)
      (Wiring.inStep_unsorted _) hs
  obtain ⟨t, ht, rfl⟩ := hstep.consistent h
  exact ⟨hstep, countsAgree_placed ht⟩

/-- A node that feeds a circle of two others, with two edges to the first of
them, which has an edge to itself too. -/
def Graph.eddy : Graph where
  nodes := [
    .new "spring" .trigger, .new "left" (.text {}), .new "right" (.text {})]
  edges := [
    ⟨"e1", { nodeId := "spring" }, { nodeId := "left" }⟩,
    ⟨"e2", { nodeId := "left" }, { nodeId := "right" }⟩,
    ⟨"e3", { nodeId := "right" }, { nodeId := "left" }⟩,
    ⟨"e4", { nodeId := "spring", portId := some "?" }, { nodeId := "left" }⟩,
    ⟨"e5", { nodeId := "left" }, { nodeId := "left" }⟩]

/-- Sorting is over when the node in front of the circle is taken, and each of
the others still waits for one. -/
theorem planning_loops_safe_eddy :
    let nodes := Graph.eddy.nodes
    let edges := Graph.eddy.edges
    ∃ tables unsorted s,
      Tables.build nodes edges = .ok tables ∧
      tables.unsorted = .ok unsorted ∧
      GetsTo tables.sort unsorted s ∧
      s.books.counts = [0, 1, 1] ∧ s.queue = [] ∧
      {u | Linked nodes edges u "left" ∧
        ∀ j ∈ s.left, (nodeIds nodes)[j]? ≠ some u}.encard = 1 := by
  intro nodes edges
  let tables : Tables String :=
    ⟨["spring", "left", "right"], [[1], [2], [1]], [0, 2, 1]⟩
  let first : Queued (Tally String) := ⟨⟨[0, 2, 1], []⟩, [0], [0], []⟩
  let next : Queued (Tally String) :=
    ⟨⟨[0, 1, 1], ["spring"]⟩, [], [0], [0]⟩
  obtain ⟨built, unsorted, _, _, _, hbuild, _, hunsorted, _, hcounts, _⟩ :=
    planning_loops_safe nodes edges
  obtain rfl : tables = built := Except.ok.inj hbuild
  obtain rfl : first = unsorted := Except.ok.inj hunsorted
  have hnext : GetsTo tables.sort first next := .single rfl
  obtain ⟨count, hcount, hcard, _⟩ := (hcounts next hnext).2 1 "left" rfl
  obtain rfl : 1 = count := Option.some_inj.mp hcount
  exact ⟨tables, first, next, hbuild, hunsorted, hnext, rfl, rfl, hcard.symm⟩

end Flowgraph
