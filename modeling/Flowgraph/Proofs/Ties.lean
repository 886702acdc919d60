import Flowgraph.Proofs.Adjacency
import Mathlib.Data.List.Sort
import Mathlib.Data.Prod.Lex

/-!
# How ties are broken

Many orders put every node behind those that feed it. `KeepsTies` says which one
of them planning takes: the starts come first, and any other node has its turn
by the place of the last node that feeds it, and among those that share this
node by the first edges that lead to them. No two lists keep to that, on circles
just as without them, so the order is determined.

The argument is about the wiring. The queue of a sorting needs no book of its
own: vertices enter it only when the last vertex that feeds them is taken, so
the order and the queue together are what the vertices of the order have
released, one after another, behind the starts. `Sound.order_eq` is what remains
of that when the queue is empty; the rest is read off this equation.

A vertex is one link further from the starts than the last that feeds it, and
not than any other one. That is why the lengths of the longest paths only grow
along the order.
-/

namespace Flowgraph

section Terms

variable {α : Type} {r : α → α → Prop} {start : α → Prop} {u v p q : α}

/-! ## Paths and places -/

/-- A path of a given number of links. -/
inductive Path (r : α → α → Prop) (u : α) : Nat → α → Prop
  | here : Path r u 0 u
  | link {n : Nat} {v x : α} (path : Path r u n v) (feeds : r v x) :
      Path r u (n + 1) x

/-- The longest path from a start has a given number of links. -/
structure Longest (r : α → α → Prop) (start : α → Prop) (v : α) (n : Nat) :
    Prop where
  attained : ∃ u, start u ∧ Path r u n v
  bound : ∀ u, start u → ∀ m, Path r u m v → m ≤ n

theorem Longest.unique {m n : Nat} (hm : Longest r start v m)
    (hn : Longest r start v n) : m = n := by
  obtain ⟨first, hfirst, hpath⟩ := hm.attained
  obtain ⟨first', hfirst', hpath'⟩ := hn.attained
  exact Nat.le_antisymm (hn.bound first hfirst m hpath)
    (hm.bound first' hfirst' n hpath')

variable [DecidableEq α]

/-- Of those that feed `v`, the one that stands last in a list. -/
structure LastFeeding (r : α → α → Prop) (l : List α) (p v : α) : Prop where
  feeds : r p v
  last : ∀ u, r u v → l.idxOf u ≤ l.idxOf p

/-- Only one of them stands last. -/
theorem LastFeeding.unique {l : List α} (hp : LastFeeding r l p v)
    (hq : LastFeeding r l q v) (hmem : p ∈ l) : p = q :=
  List.idxOf_inj hmem |>.mp
    (Nat.le_antisymm (hq.last p hp.feeds) (hp.last q hq.feeds))

end Terms

/-! ## The condition -/

section Condition

variable {nodes : List Node} {edges : List Edge}

/-- When the turn of a node comes: at the place of the last node that feeds it,
and there at the place of the first edge from the one to the other. -/
def turn (edges : List Edge) (l : List String) (p v : String) : Nat ×ₗ Nat :=
  toLex (l.idxOf p, (edges.map Edge.link).idxOf (p, v))

/-- A list of ids in which every node stands behind all that feed it, that
leaves none out of which this could be said, and that breaks ties by the
rule. -/
structure KeepsTies (nodes : List Node) (edges : List Edge) (l : List String) :
    Prop where
  nodup : l.Nodup
  ids : ∀ id ∈ l, ∃ node ∈ nodes, node.id = id
  forward : ∀ {u v}, Linked nodes edges u v → v ∈ l →
    u ∈ l ∧ l.idxOf u < l.idxOf v
  complete : ∀ node ∈ nodes, (∀ u, Linked nodes edges u node.id → u ∈ l) →
    node.id ∈ l
  starts_first : ∃ starts, starts <+: l ∧ InNodeOrder nodes starts ∧
    ∀ id, id ∈ starts ↔ IsStart nodes edges id
  has_last : ∀ v ∈ l, ¬ IsStart nodes edges v →
    ∃ p ∈ l, LastFeeding (Linked nodes edges) l p v
  ties : l.Pairwise fun u v => ∀ p q, LastFeeding (Linked nodes edges) l p u →
    LastFeeding (Linked nodes edges) l q v → turn edges l p u < turn edges l q v

end Condition

namespace Wiring

variable {α : Type} {w : Wiring α} {u v p : α} [DecidableEq α]

/-- When the turn of a vertex comes: at the place of the last vertex that feeds
it, and there at its place among what that vertex feeds. -/
def turn (w : Wiring α) (l : List α) (p v : α) : Nat ×ₗ Nat :=
  toLex (l.idxOf p, (w.successors p).idxOf v)

/-- A list in which every vertex stands behind all that feed it, that leaves
none out of which this could be said, and that breaks ties by the rule. -/
structure KeepsTies (w : Wiring α) (l : List α) : Prop where
  nodup : l.Nodup
  subset : l ⊆ w.vertices
  forward : ∀ {u v}, w.Feeds u v → v ∈ l → u ∈ l ∧ l.idxOf u < l.idxOf v
  complete : ∀ v ∈ w.vertices, (∀ u, w.Feeds u v → u ∈ l) → v ∈ l
  starts_first : w.starts <+: l
  has_last : ∀ v ∈ l, v ∉ w.starts → ∃ p ∈ l, LastFeeding w.Feeds l p v
  ties : l.Pairwise fun u v => ∀ p q, LastFeeding w.Feeds l p u →
    LastFeeding w.Feeds l q v → w.turn l p u < w.turn l q v

/-! ## What is released -/

/-- What the vertex `v` of an order releases, taken behind others: of what it
feeds that which then waits for nothing. -/
def released (w : Wiring α) (before : List α) (v : α) : List α :=
  (w.successors v).filter fun u => w.pending (before ++ [v]) u = []

/-- What vertices release that are taken in a row, behind others. -/
def arrivals (w : Wiring α) (before : List α) : List α → List α
  | [] => []
  | v :: rest => w.released before v ++ arrivals w (before ++ [v]) rest

theorem arrivals_concat (before l : List α) (v : α) :
    w.arrivals before (l ++ [v]) =
      w.arrivals before l ++ w.released (before ++ l) v := by
  induction l generalizing before with
  | nil => simp [arrivals]
  | cons u rest ih =>
      rw [List.cons_append, arrivals, ih, arrivals, List.append_assoc,
        List.append_assoc]
      rfl

/-- What enters the queue with a step is what the vertex that is taken
releases. -/
theorem Consistent.filter_count_eq {s s' : Sorting α} (h : w.Sound)
    (hs : w.Consistent s) (ht : w.Takes s v s') :
    (w.successors v).filter (s.count · ≤ 1) = w.released s.order v := by
  refine List.filter_congr fun u hu => decide_eq_decide.mpr ?_
  have hmem := (hs.mem_pending_head ht).mpr hu
  have hpos := List.length_pos_of_mem hmem
  rw [hs.count_eq, h.pending_concat, ← List.length_eq_zero_iff,
    List.length_erase_of_mem hmem]
  omega

/-- The order and the queue are the starts and what the order has released. -/
theorem Consistent.sortUpTo_released (h : w.Sound) (count : Nat) :
    ∀ {s : Sorting α}, w.Consistent s →
      s.order ++ s.queue = w.starts ++ w.arrivals [] s.order →
      (w.sortUpTo count s).order ++ (w.sortUpTo count s).queue =
        w.starts ++ w.arrivals [] (w.sortUpTo count s).order := by
  induction count with
  | zero => exact fun _ hqueue => hqueue
  | succ count ih =>
      intro s hs hqueue
      rw [Wiring.sortUpTo]
      rcases w.sortStep_cases h s with ⟨_, hnone⟩ | ⟨v, s', hsome, ht⟩
      · rw [hnone]
        exact hqueue
      · rw [hsome]
        refine ih (hs.step h ht) ?_
        rw [ht.order_next, ht.queue_next, hs.filter_count_eq h ht,
          arrivals_concat, List.nil_append, ← List.append_assoc w.starts,
          ← hqueue, ht.queue_eq]
        simp

/-- The order consists of the starts and of what it releases itself. -/
theorem Sound.order_eq (h : w.Sound) :
    w.order = w.starts ++ w.arrivals [] w.order := by
  have hend := (consistent_unsorted h).sortUpTo_released h w.vertices.length
    (by simp [unsorted, arrivals])
  have hqueue := queue_sorted h
  rw [sorted] at hqueue
  rw [hqueue, List.append_nil] at hend
  exact hend

/-! ## The order breaks ties by the rule -/

theorem lastFeeding_of_released {before rest : List α}
    (hnodup : (before ++ p :: rest).Nodup) (hv : v ∈ w.released before p) :
    LastFeeding w.Feeds (before ++ p :: rest) p v ∧
      (before ++ p :: rest).idxOf p = before.length := by
  rw [released, List.mem_filter, decide_eq_true_eq, mem_successors,
    pending_eq_nil] at hv
  have hp : p ∉ before := not_mem_front_of_nodup hnodup
  have hplace : (before ++ p :: rest).idxOf p = before.length := by
    rw [List.idxOf_append_of_notMem hp, List.idxOf_cons_self, Nat.add_zero]
  refine ⟨⟨hv.1, fun u hu => ?_⟩, hplace⟩
  rcases List.mem_append.mp (hv.2 u hu) with hu | hu
  · rw [hplace, List.idxOf_append_of_mem hu]
    exact Nat.le_of_lt (List.idxOf_lt_length_of_mem hu)
  · rw [List.mem_singleton.mp hu]

/-- Everything that arrives was released at some place. -/
theorem lastFeeding_of_arrivals (before : List α) {l : List α}
    (hnodup : (before ++ l).Nodup) (hv : v ∈ w.arrivals before l) :
    ∃ p ∈ before ++ l, LastFeeding w.Feeds (before ++ l) p v ∧
      before.length ≤ (before ++ l).idxOf p := by
  induction l generalizing before with
  | nil => cases hv
  | cons p rest ih =>
      rcases List.mem_append.mp hv with hv | hv
      · obtain ⟨hlast, hplace⟩ := lastFeeding_of_released hnodup hv
        exact ⟨p, by simp, hlast, hplace.ge⟩
      · have hassoc : before ++ p :: rest = (before ++ [p]) ++ rest := by simp
        rw [hassoc] at hnodup ⊢
        obtain ⟨q, hq, hlast, hplace⟩ := ih _ hnodup hv
        rw [List.length_append] at hplace
        exact ⟨q, hq, hlast, Nat.le_of_succ_le hplace⟩

/-- What is released in a row, or by one vertex, has its turn in that order. -/
theorem arrivals_pairwise (h : w.Sound) (before : List α) {l : List α}
    (hnodup : (before ++ l).Nodup) :
    (w.arrivals before l).Pairwise fun u v =>
      ∃ p ∈ before ++ l, ∃ q ∈ before ++ l,
        LastFeeding w.Feeds (before ++ l) p u ∧
        LastFeeding w.Feeds (before ++ l) q v ∧
        w.turn (before ++ l) p u < w.turn (before ++ l) q v := by
  induction l generalizing before with
  | nil => exact .nil
  | cons p rest ih =>
      have hassoc : before ++ p :: rest = (before ++ [p]) ++ rest := by simp
      have hp : p ∈ before ++ p :: rest := by simp
      rw [arrivals, List.pairwise_append]
      refine ⟨?_, ?_, ?_⟩
      · -- Released by one vertex: the order of its links decides.
        have hplaces : (w.released before p).Pairwise fun u v =>
            (w.successors p).idxOf u < (w.successors p).idxOf v :=
          (pairwise_idxOf (h.successors_nodup p)).sublist List.filter_sublist
        refine hplaces.imp_of_mem fun {u v} hu hv hlt => ?_
        exact ⟨p, hp, p, hp, (lastFeeding_of_released hnodup hu).1,
          (lastFeeding_of_released hnodup hv).1, Prod.Lex.right _ hlt⟩
      · rw [hassoc] at hnodup ⊢
        exact ih _ hnodup
      · -- Released by a later vertex: its place decides.
        intro u hu v hv
        obtain ⟨hlast, hplace⟩ := lastFeeding_of_released hnodup hu
        rw [hassoc] at hnodup hlast hplace hp ⊢
        obtain ⟨q, hq, hlast', hplace'⟩ := lastFeeding_of_arrivals _ hnodup hv
        rw [List.length_append, List.length_singleton] at hplace'
        exact ⟨p, hp, q, hq, hlast, hlast', Prod.Lex.left _ _ (by omega)⟩

theorem not_lastFeeding_start {l : List α} (hv : v ∈ w.starts) :
    ¬ LastFeeding w.Feeds l p v :=
  fun h => (mem_starts.mp hv).2 p h.feeds

/-- The order is a list of starts and arrivals, in which turns only grow. -/
theorem Sound.order_ties (h : w.Sound) :
    w.order.Pairwise fun u v => ∀ p q, LastFeeding w.Feeds w.order p u →
      LastFeeding w.Feeds w.order q v →
        w.turn w.order p u < w.turn w.order q v := by
  have hpairs := arrivals_pairwise h [] (l := w.order) h.order_nodup
  simp only [List.nil_append] at hpairs
  -- The equation is used for the list alone, not for the places in it.
  suffices hall : ∀ l, l = w.starts ++ w.arrivals [] w.order →
      l.Pairwise fun u v => ∀ p q, LastFeeding w.Feeds w.order p u →
        LastFeeding w.Feeds w.order q v →
          w.turn w.order p u < w.turn w.order q v from
    hall _ h.order_eq
  rintro _ rfl
  refine List.pairwise_append.mpr ⟨?_, ?_, ?_⟩
  · exact List.pairwise_of_forall_mem_list fun u hu _ _ p _ hp _ =>
      absurd hp (not_lastFeeding_start hu)
  · refine hpairs.imp fun {u v} ⟨p, hp, q, hq, hu, hv, hlt⟩ p' q' hp' hq' => ?_
    rwa [← hu.unique hp' hp, ← hv.unique hq' hq]
  · exact fun u hu _ _ p _ hp _ => absurd hp (not_lastFeeding_start hu)

theorem Sound.keepsTies_order (h : w.Sound) : w.KeepsTies w.order where
  nodup := h.order_nodup
  subset := h.order_subset
  forward huv hv := ⟨(h.mem_order.mp hv).2 _ huv, h.idxOf_lt_of_feeds huv hv⟩
  complete v hv hfed := h.mem_order.mpr ⟨hv, hfed⟩
  starts_first := ⟨_, h.order_eq.symm⟩
  has_last v hv hstart := by
    rw [h.order_eq, List.mem_append, or_iff_right hstart] at hv
    obtain ⟨p, hp, hlast, _⟩ := lastFeeding_of_arrivals [] h.order_nodup hv
    exact ⟨p, hp, hlast⟩
  ties := h.order_ties

/-! ## No other list does -/

namespace KeepsTies

variable {before rest rest' l : List α}

/-- What feeds a vertex of the list stands in front of it. -/
theorem mem_front (h : w.KeepsTies (before ++ v :: rest))
    (hfeeds : w.Feeds u v) : u ∈ before := by
  obtain ⟨hu, hlt⟩ := h.forward hfeeds (by simp)
  have hv : v ∉ before := not_mem_front_of_nodup h.nodup
  by_contra hout
  rw [List.idxOf_append_of_notMem hv, List.idxOf_append_of_notMem hout,
    List.idxOf_cons_self] at hlt
  omega

/-- A list with the same front has the vertex too. -/
theorem mem_of_same_front (h : w.KeepsTies (before ++ v :: rest))
    (h' : w.KeepsTies (before ++ rest')) : v ∈ rest' := by
  have hv : v ∈ before ++ rest' := by
    refine h'.complete v (h.subset (by simp)) fun u hu => ?_
    exact List.mem_append_left _ (h.mem_front hu)
  exact (List.mem_append.mp hv).resolve_left (not_mem_front_of_nodup h.nodup)

/-- Where all that feeds a vertex is at the front, its turn is decided there. -/
theorem lastFeeding_iff (hfront : ∀ u, w.Feeds u v → u ∈ before) :
    LastFeeding w.Feeds (before ++ rest) p v ↔
      LastFeeding w.Feeds (before ++ rest') p v := by
  have hplace (r : List α) (u : α) (hu : w.Feeds u v) :
      (before ++ r).idxOf u = before.idxOf u :=
    List.idxOf_append_of_mem (hfront u hu)
  constructor
  · intro ⟨hfeeds, hlast⟩
    refine ⟨hfeeds, fun u hu => ?_⟩
    have hle := hlast u hu
    rwa [hplace _ u hu, hplace _ p hfeeds] at hle ⊢
  · intro ⟨hfeeds, hlast⟩
    refine ⟨hfeeds, fun u hu => ?_⟩
    have hle := hlast u hu
    rwa [hplace _ u hu, hplace _ p hfeeds] at hle ⊢

/-- A start comes next in every list with the same front. -/
theorem eq_of_start {x y : α} (h : w.KeepsTies (before ++ x :: rest))
    (h' : w.KeepsTies (before ++ y :: rest')) (hx : x ∈ w.starts) :
    x = y := by
  have hout : x ∉ before := not_mem_front_of_nodup h.nodup
  have hfront : before ++ [x] <+: w.starts := by
    have hwhole : before ++ [x] <+: before ++ x :: rest := ⟨rest, by simp⟩
    refine List.prefix_of_prefix_length_le hwhole h.starts_first ?_
    -- Were there fewer starts, all of them would stand in front of `x`.
    by_contra hlt
    rw [List.length_append, List.length_singleton, Nat.not_le] at hlt
    have hstarts : w.starts <+: before :=
      List.prefix_of_prefix_length_le h.starts_first (List.prefix_append _ _)
        (by omega)
    exact hout (hstarts.subset hx)
  obtain ⟨tail, htail⟩ := hfront.trans h'.starts_first
  rw [List.append_assoc, List.append_cancel_left_eq] at htail
  exact (List.cons.inj htail).1

theorem turn_lt {x y : α} (h : w.KeepsTies (before ++ x :: rest))
    (hy : y ∈ rest) {q : α} (hp : LastFeeding w.Feeds (before ++ x :: rest) p x)
    (hq : LastFeeding w.Feeds (before ++ x :: rest) q y) :
    w.turn (before ++ x :: rest) p x < w.turn (before ++ x :: rest) q y := by
  have htail := (List.pairwise_append.mp h.ties).2.1
  exact (List.pairwise_cons.mp htail).1 y hy p q hp hq

/-- Two lists with the same front go on with the same vertex: of two different
ones each would have its turn before the other. -/
theorem next_eq {x y : α} (h : w.KeepsTies (before ++ x :: rest))
    (h' : w.KeepsTies (before ++ y :: rest')) : x = y := by
  by_cases hx : x ∈ w.starts
  · exact h.eq_of_start h' hx
  by_cases hy : y ∈ w.starts
  · exact (h'.eq_of_start h hy).symm
  by_contra hne
  have hyrest : y ∈ rest :=
    (List.mem_cons.mp (h'.mem_of_same_front h)).resolve_left (Ne.symm hne)
  have hxrest : x ∈ rest' :=
    (List.mem_cons.mp (h.mem_of_same_front h')).resolve_left hne
  obtain ⟨p, -, hp⟩ := h.has_last x (by simp) hx
  obtain ⟨q, -, hq⟩ := h'.has_last y (by simp) hy
  have hp' : LastFeeding w.Feeds (before ++ y :: rest') p x :=
    (lastFeeding_iff fun u => h.mem_front).mp hp
  have hq' : LastFeeding w.Feeds (before ++ x :: rest) q y :=
    (lastFeeding_iff fun u => h'.mem_front).mp hq
  have hlt := h.turn_lt hyrest hp hq'
  have hlt' := h'.turn_lt hxrest hq hp'
  -- Both turns are decided at the front, which the lists share.
  have hturn (r : List α) (a b : α) (ha : a ∈ before) :
      w.turn (before ++ r) a b = toLex (before.idxOf a,
        (w.successors a).idxOf b) := by
    rw [turn, List.idxOf_append_of_mem ha]
  have hpfront := h.mem_front hp.feeds
  have hqfront := h'.mem_front hq.feeds
  rw [hturn _ p x hpfront, hturn _ q y hqfront] at hlt hlt'
  exact lt_asymm hlt hlt'

theorem rest_eq (before : List α) (h : w.KeepsTies (before ++ rest))
    (h' : w.KeepsTies (before ++ rest')) : rest = rest' := by
  induction rest generalizing before rest' with
  | nil =>
      cases rest' with
      | nil => rfl
      | cons y rest' => exact absurd (h'.mem_of_same_front h) List.not_mem_nil
  | cons x rest ih =>
      cases rest' with
      | nil => exact absurd (h.mem_of_same_front h') List.not_mem_nil
      | cons y rest' =>
          obtain rfl := h.next_eq h'
          rw [ih (before ++ [x]) (by simpa using h) (by simpa using h')]

theorem unique {l' : List α} (h : w.KeepsTies l) (h' : w.KeepsTies l') :
    l = l' :=
  rest_eq [] h h'

end KeepsTies

/-! ## Longest paths -/

theorem longest_start (hv : v ∈ w.starts) :
    Longest w.Feeds (· ∈ w.starts) v 0 where
  attained := ⟨v, hv, .here⟩
  bound start _ m hpath := by
    cases hpath with
    | here => exact Nat.le_refl 0
    | link _ feeds => exact absurd feeds ((mem_starts.mp hv).2 _)

namespace KeepsTies

variable {l : List α}

/-- A vertex is one link behind the last that feeds it, if nothing in front of
that one is further from the starts. -/
theorem longest_succ (h : w.KeepsTies l) (hv : v ∈ l)
    (hp : LastFeeding w.Feeds l p v) {n : Nat}
    (hn : Longest w.Feeds (· ∈ w.starts) p n)
    (hfront : ∀ u ∈ l, l.idxOf u ≤ l.idxOf p →
      ∃ m, Longest w.Feeds (· ∈ w.starts) u m ∧ m ≤ n) :
    Longest w.Feeds (· ∈ w.starts) v (n + 1) where
  attained := by
    obtain ⟨start, hstart, hpath⟩ := hn.attained
    exact ⟨start, hstart, hpath.link hp.feeds⟩
  bound start hstart m hpath := by
    cases hpath with
    | here => exact Nat.zero_le _
    | @link k u _ hpath hfeeds =>
        obtain ⟨k', hk', hle⟩ :=
          hfront u (h.forward hfeeds hv).1 (hp.last u hfeeds)
        have hbound := hk'.bound start hstart k hpath
        omega

/-- What stands in front of a start is a start. -/
theorem mem_starts_of_le (h : w.KeepsTies l) (hv : v ∈ w.starts)
    (hle : l.idxOf u ≤ l.idxOf v) : u ∈ w.starts := by
  obtain ⟨tail, rfl⟩ := h.starts_first
  by_contra hu
  have hlt := List.idxOf_lt_length_of_mem hv
  rw [List.idxOf_append_of_mem hv, List.idxOf_append_of_notMem hu] at hle
  omega

/-- Of two vertices in a row, what feeds the first one last does not stand
behind what feeds the second one last. -/
theorem idxOf_last_le (h : w.KeepsTies l) (hu : u ∈ l) (hv : v ∈ l)
    (hlt : l.idxOf u < l.idxOf v) {q : α} (hq : LastFeeding w.Feeds l q u)
    (hp : LastFeeding w.Feeds l p v) : l.idxOf q ≤ l.idxOf p := by
  have hturn := List.pairwise_iff_getElem.mp h.ties _ _
    (List.idxOf_lt_length_of_mem hu) (List.idxOf_lt_length_of_mem hv) hlt
  rw [List.getElem_idxOf, List.getElem_idxOf] at hturn
  have hle := Prod.Lex.le_iff.mp (hturn q p hq hp).le
  exact hle.elim Nat.le_of_lt fun heq => heq.1.le

/-- Every vertex of the list has a longest path, and none in front of it has a
longer one. -/
theorem exists_longest (h : w.KeepsTies l) (hv : v ∈ l) :
    ∃ n, Longest w.Feeds (· ∈ w.starts) v n ∧
      ∀ u ∈ l, l.idxOf u ≤ l.idxOf v →
        ∃ m, Longest w.Feeds (· ∈ w.starts) u m ∧ m ≤ n := by
  induction hi : l.idxOf v using Nat.strong_induction_on generalizing v with
  | _ i ih =>
      subst hi
      by_cases hstart : v ∈ w.starts
      · refine ⟨0, longest_start hstart, fun u hu hle => ?_⟩
        exact ⟨0, longest_start (h.mem_starts_of_le hstart hle), le_rfl⟩
      · obtain ⟨p, hpl, hp⟩ := h.has_last v hv hstart
        obtain ⟨n, hn, hfront⟩ :=
          ih _ (h.forward hp.feeds hv).2 hpl rfl
        have hlong := h.longest_succ hv hp hn hfront
        refine ⟨n + 1, hlong, fun u hu hle => ?_⟩
        obtain hlt | heq := Nat.lt_or_eq_of_le hle
        · by_cases hustart : u ∈ w.starts
          · exact ⟨0, longest_start hustart, Nat.zero_le _⟩
          · -- The last vertex that feeds `u` is not behind the one that feeds
            -- `v`, so it is not further from the starts either.
            obtain ⟨q, hql, hq⟩ := h.has_last u hu hustart
            have hqlt := (h.forward hq.feeds hu).2
            obtain ⟨k, hk, hqfront⟩ := ih _ (hqlt.trans hlt) hql rfl
            obtain ⟨m, hm, hmn⟩ :=
              hfront q hql (h.idxOf_last_le hu hv hlt hq hp)
            obtain rfl := hm.unique hk
            exact ⟨m + 1, h.longest_succ hu hq hk hqfront, by omega⟩
        · obtain rfl := (List.idxOf_inj hu).mp heq
          exact ⟨n + 1, hlong, le_rfl⟩

/-- Along the list the longest paths only grow. -/
theorem pairwise_longest (h : w.KeepsTies l) : l.Pairwise fun u v => ∀ m n,
    Longest w.Feeds (· ∈ w.starts) u m → Longest w.Feeds (· ∈ w.starts) v n →
      m ≤ n := by
  refine (pairwise_idxOf h.nodup).imp_of_mem
    fun {u v} hu hv hlt m n hm hn => ?_
  obtain ⟨n', hn', hfront⟩ := h.exists_longest hv
  obtain ⟨m', hm', hle⟩ := hfront u hu (Nat.le_of_lt hlt)
  rwa [hm.unique hm', hn.unique hn']

end KeepsTies

end Wiring

/-! ## Nodes and edges -/

section Graphs

variable {nodes : List Node} {edges : List Edge} {l : List String}
  {u v p q : String}

/-- What a node feeds stands in the order of the first edges to it. -/
theorem turn_lt_turn (hp : p ∈ l) (hu : Linked nodes edges p u)
    (hv : Linked nodes edges q v) :
    (wiring nodes edges).turn l p u < (wiring nodes edges).turn l q v ↔
      turn edges l p u < turn edges l q v := by
  simp only [Wiring.turn, turn, Prod.Lex.toLex_lt_toLex]
  refine or_congr_right (and_congr_right fun hplace => ?_)
  obtain rfl := (List.idxOf_inj hp).mp hplace
  rw [← feeds_wiring_eq_linked, ← Wiring.mem_successors] at hu hv
  exact idxOf_lt_idxOf_iff (pairwise_successors nodes edges p) hu hv

/-- There is one list of the starts in the order of the nodes. -/
theorem eq_starts {starts : List String} (horder : InNodeOrder nodes starts)
    (hmem : ∀ id, id ∈ starts ↔ IsStart nodes edges id) :
    starts = (wiring nodes edges).starts := by
  have : Std.Antisymm fun a b : String =>
      (nodes.map (·.id)).idxOf a < (nodes.map (·.id)).idxOf b :=
    ⟨fun _ _ h h' => absurd h (Nat.lt_asymm h')⟩
  have : Std.Irrefl fun a b : String =>
      (nodes.map (·.id)).idxOf a < (nodes.map (·.id)).idxOf b :=
    ⟨fun _ => Nat.lt_irrefl _⟩
  have hstarts : InNodeOrder nodes (wiring nodes edges).starts :=
    inNodeOrder_filter nodes _
  refine List.Pairwise.eq_of_mem_iff horder hstarts fun id => ?_
  rw [hmem, mem_starts_wiring]

theorem keepsTies_wiring :
    (wiring nodes edges).KeepsTies l ↔ KeepsTies nodes edges l := by
  constructor
  · rintro ⟨nodup, subset, forward, complete, starts_first, has_last, ties⟩
    simp only [feeds_wiring_eq_linked] at forward complete
    simp only [feeds_wiring_eq_linked, mem_starts_wiring] at has_last ties
    refine ⟨nodup, fun id hid => mem_nodeIds.mp (subset hid), forward,
      fun node hnode => complete _ (mem_nodeIds.mpr ⟨node, hnode, rfl⟩),
      ⟨_, starts_first, inNodeOrder_filter nodes _, fun _ => mem_starts_wiring⟩,
      has_last, ties.imp_of_mem fun {u v} hu _ hturn p q hp hq => ?_⟩
    exact (turn_lt_turn (forward hp.feeds hu).1 hp.feeds hq.feeds).mp
      (hturn p q hp hq)
  · rintro ⟨nodup, ids, forward, complete, ⟨starts, hprefix, horder, hmem⟩,
      has_last, ties⟩
    obtain rfl := eq_starts horder hmem
    have hfeeds := feeds_wiring_eq_linked nodes edges
    refine ⟨nodup, fun id hid => mem_nodeIds.mpr (ids id hid), ?_, ?_, hprefix,
      ?_, ?_⟩
    · rwa [hfeeds]
    · intro v hv
      obtain ⟨node, hnode, rfl⟩ := mem_nodeIds.mp hv
      rw [hfeeds]
      exact complete node hnode
    · rw [hfeeds]
      exact fun v hv hstart => has_last v hv (mt (hmem v).mpr hstart)
    · rw [hfeeds]
      refine ties.imp_of_mem fun {u v} hu _ hturn p q hp hq => ?_
      exact (turn_lt_turn (forward hp.feeds hu).1 hp.feeds hq.feeds).mpr
        (hturn p q hp hq)

end Graphs

/-- The planning order is the one list that keeps to the rule, also where there
are circles. Every node of it has a longest path from a start, and along it the
lengths of these only grow. -/
theorem order_keeps_ties (nodes : List Node) (edges : List Edge) :
    KeepsTies nodes edges (wiring nodes edges).order ∧
      (∀ l, KeepsTies nodes edges l → l = (wiring nodes edges).order) ∧
      (∀ v ∈ (wiring nodes edges).order,
        ∃ n, Longest (Linked nodes edges) (IsStart nodes edges) v n) ∧
      (wiring nodes edges).order.Pairwise fun u v => ∀ m n,
        Longest (Linked nodes edges) (IsStart nodes edges) u m →
          Longest (Linked nodes edges) (IsStart nodes edges) v n → m ≤ n := by
  have hties := (wiring_sound nodes edges).keepsTies_order
  have hstarts : (· ∈ (wiring nodes edges).starts) = IsStart nodes edges :=
    funext fun _ => propext mem_starts_wiring
  rw [← feeds_wiring_eq_linked, ← hstarts]
  refine ⟨keepsTies_wiring.mp hties, fun l hl => ?_, fun v hv => ?_,
    hties.pairwise_longest⟩
  · exact (keepsTies_wiring.mpr hl).unique hties
  · obtain ⟨n, hn, _⟩ := hties.exists_longest hv
    exact ⟨n, hn⟩

/-- Two starts, ties of every kind, and a circle behind them. -/
def Graph.whirl : Graph where
  nodes := [
    .new "end" .output, .new "second" .output, .new "first" .output,
    .new "late" .output, .new "one" .trigger, .new "left" .output,
    .new "two" .trigger, .new "right" .output]
  edges := [
    ⟨"e1", { nodeId := "one" }, { nodeId := "late" }⟩,
    ⟨"e2", { nodeId := "one" }, { nodeId := "first" }⟩,
    ⟨"e3", { nodeId := "one" }, { nodeId := "second" }⟩,
    ⟨"e4", { nodeId := "two" }, { nodeId := "late" }⟩,
    ⟨"e5", { nodeId := "second" }, { nodeId := "end" }⟩,
    ⟨"e6", { nodeId := "late" }, { nodeId := "left" }⟩,
    ⟨"e7", { nodeId := "left" }, { nodeId := "right" }⟩,
    ⟨"e8", { nodeId := "right" }, { nodeId := "left" }⟩]

/-- The node that the first edge leads to comes late, because another start
feeds it too. -/
theorem order_keeps_ties_whirl :
    let nodes := Graph.whirl.nodes
    let edges := Graph.whirl.edges
    let l := ["one", "two", "first", "second", "late", "end"]
    OnCircle nodes edges "left" ∧ KeepsTies nodes edges l ∧
      (∀ l', KeepsTies nodes edges l' → l' = l) ∧
      LastFeeding (Linked nodes edges) l "two" "late" ∧
      (∃ n, Longest (Linked nodes edges) (IsStart nodes edges) "end" n) ∧
      ∀ m n, Longest (Linked nodes edges) (IsStart nodes edges) "late" m →
        Longest (Linked nodes edges) (IsStart nodes edges) "end" n → m ≤ n := by
  intro nodes edges l
  have horder : (wiring nodes edges).order = l := by decide
  obtain ⟨hties, hunique, hlongest, hgrow⟩ := order_keeps_ties nodes edges
  rw [horder] at hties hunique hlongest hgrow
  have hcircle : OnCircle nodes edges "left" := by
    have hback : Linked nodes edges "right" "left" := by decide
    exact .tail (.single (by decide)) hback
  have hplaces : ∀ edge ∈ edges, edge.target.nodeId = "late" →
      l.idxOf edge.source.nodeId ≤ l.idxOf "two" := by decide
  have hlate : LastFeeding (Linked nodes edges) l "two" "late" := by
    refine ⟨by decide, ?_⟩
    rintro _ ⟨⟨edge, hedge, rfl, htarget⟩, _⟩
    exact hplaces edge hedge htarget
  exact ⟨hcircle, hties, hunique, hlate, hlongest "end" (by decide),
    List.pairwise_iff_getElem.mp hgrow 4 5 (by decide) (by decide) (by decide)⟩

end Flowgraph
