import Flowgraph.Proofs.Meaning

/-!
# Records in other forms

What a record is read as depends on its members and not on the form in which
they come. Both readers of records come down to one statement: no member that
there is a field for stands twice, none that is required is missing, and those
that there are fields for fill the record. Members without a field are out of it
from the begin, and since every field puts its value where no other field does,
the order of the others makes no difference either. A member that holds what
the record starts with can then be thought of as the first one, and does nothing
to the record.

`Steady` puts together what a reader of objects has to offer: it stands the
three changes of an object that leave the record as it is. Beside a tag it is
kept, because the tag can be taken out wherever it stands.
-/

namespace Flowgraph

namespace Field

variable {σ τ α β γ : Type} {fields : List (Field τ α)} {view : σ → τ}
  {ms ms' : List (String × σ)} {name : String}

/-! ## Members that there are fields for -/

/-- The members that there are fields for. -/
def known (fields : List (Field τ α)) (ms : List (String × σ)) :
    List (String × σ) :=
  ms.filter fun m => (find? fields m.1).isSome

/-- No member that there is a field for stands twice, and none that is required
is missing. -/
structure Complete (fields : List (Field τ α)) (ms : List (String × σ)) :
    Prop where
  distinct : ((known fields ms).map (·.1)).Nodup
  given : ∀ field ∈ fields, field.presence = .required →
    field.name ∈ ms.map (·.1)

theorem find?_eq_none :
    find? fields name = none ↔ ∀ field ∈ fields, field.name ≠ name := by
  simp [find?]

theorem find?_name {field : Field τ α} (h : find? fields name = some field) :
    field.name = name := by
  simpa using List.find?_some h

theorem known_cons_of_none {value : σ} (h : find? fields name = none) :
    known fields ((name, value) :: ms) = known fields ms :=
  List.filter_cons_of_neg (by simp [h])

theorem known_cons_of_some {value : σ} {field : Field τ α}
    (h : find? fields name = some field) :
    known fields ((name, value) :: ms) = (name, value) :: known fields ms :=
  List.filter_cons_of_pos (by simp [h])

theorem fills_nil {first last : α} :
    Fills fields view [] first last ↔ first = last := by
  constructor
  · intro h
    cases h
    rfl
  · rintro rfl
    exact .nil

theorem fills_cons {value : σ} {field : Field τ α}
    (h : find? fields name = some field) {first last : α} :
    Fills fields view ((name, value) :: ms) first last ↔
      ∃ next, field.read (view value) first = .ok next ∧
        Fills fields view ms next last := by
  constructor
  · intro hfills
    cases hfills with
    | cons known read filled =>
        obtain rfl := Option.some.inj (known.symm.trans h)
        exact ⟨_, read, filled⟩
  · rintro ⟨next, hread, hfills⟩
    exact .cons h hread hfills

/-- A reader of members takes each one that there is a field for once, passes
over the others and asks for the missing ones at the end. -/
structure Takes (fields : List (Field τ α)) (view : σ → τ)
    (run : List (String × σ) → List String → α → Except Problem α) : Prop where
  nil : ∀ names record last, run [] names record = .ok last ↔
    missing? fields names = none ∧ record = last
  none : ∀ name value rest names record, find? fields name = none →
    run ((name, value) :: rest) names record = run rest names record
  some : ∀ name value rest names record last field,
    find? fields name = some field →
      (run ((name, value) :: rest) names record = .ok last ↔
        name ∉ names ∧ ∃ next, field.read (view value) record = .ok next ∧
          run rest (name :: names) next = .ok last)

variable {run : List (String × σ) → List String → α → Except Problem α}

theorem Takes.run_eq_ok (h : Takes fields view run) {names : List String}
    (hnames : names.Nodup) {first last : α} :
    run ms names first = .ok last ↔
      ((known fields ms).map (·.1) ++ names).Nodup ∧
      (∀ field ∈ fields, field.presence = .required →
        field.name ∈ ms.map (·.1) ++ names) ∧
      Fills fields view (known fields ms) first last := by
  -- what was read already is left behind in the names and in the record
  induction ms generalizing names first with
  | nil =>
      rw [h.nil, missing?_eq_none]
      simp [known, fills_nil, hnames]
  | cons m rest ih =>
      obtain ⟨name, value⟩ := m
      cases hfind : find? fields name with
      | none =>
          have hother := find?_eq_none.mp hfind
          rw [h.none name value rest names first hfind, ih hnames,
            known_cons_of_none hfind]
          refine and_congr_right fun _ => and_congr_left fun _ => ?_
          refine forall₂_congr fun field hfield => imp_congr_right fun _ => ?_
          rw [List.map_cons, List.cons_append, List.mem_cons,
            or_iff_right (hother field hfield)]
      | some field =>
          have hmem (other : Field τ α) :
              other.name ∈ (name :: rest.map (·.1)) ++ names ↔
                other.name ∈ rest.map (·.1) ++ name :: names :=
            List.perm_middle.symm.mem_iff
          rw [h.some name value rest names first last field hfind,
            known_cons_of_some hfind, fills_cons hfind, List.map_cons,
            List.map_cons, List.cons_append, ← List.nodup_middle]
          simp only [hmem]
          constructor
          · rintro ⟨hfresh, next, hread, hrun⟩
            obtain ⟨hdistinct, hgiven, hfills⟩ :=
              (ih (List.nodup_cons.mpr ⟨hfresh, hnames⟩)).mp hrun
            exact ⟨hdistinct, hgiven, next, hread, hfills⟩
          · rintro ⟨hdistinct, hgiven, next, hread, hfills⟩
            have hnext : (name :: names).Nodup := hdistinct.of_append_right
            exact ⟨(List.nodup_cons.mp hnext).1, next, hread,
              (ih hnext).mpr ⟨hdistinct, hgiven, hfills⟩⟩

theorem Takes.begin_eq_ok (h : Takes fields view run) {start last : α} :
    run ms [] start = .ok last ↔
      Complete fields ms ∧ Fills fields view (known fields ms) start last := by
  rw [h.run_eq_ok List.nodup_nil, List.append_nil, List.append_nil, ← and_assoc]
  exact and_congr_left fun _ => ⟨fun ⟨hdistinct, hgiven⟩ =>
    ⟨hdistinct, hgiven⟩, fun h => ⟨h.distinct, h.given⟩⟩

end Field

/-! ## Both readers of records -/

section Readers

variable {α : Type} {ms : List (String × Json)} {start last : α}

theorem once_eq_ok {P : Prop} [Decidable P] {fault : Problem}
    {x : Except Problem α} {f : α → Except Problem α} :
    (do
      if P then throw fault
      let a ← x
      f a) = .ok last ↔ ¬ P ∧ ∃ a, x = .ok a ∧ f a = .ok last := by
  by_cases h : P
  · simp [h, bind, Except.bind, throw, throwThe, MonadExceptOf.throw]
  · simpa [h] using bind_eq_ok

theorem Reader.takes_members (fields : List (Field Tree α)) :
    Field.Takes fields Json.asTree fun ms =>
      members fields (Json.membersAsTrees ms) .closed where
  nil names record last := by
    simp only [Json.membersAsTrees, members]
    cases Field.missing? fields names <;> simp [Problem.lift, Close.readObject,
      bind, Except.bind, pure, Except.pure, throw, throwThe,
      MonadExceptOf.throw]
  none name value rest names record h := by
    simp only [Json.membersAsTrees, members, Problem.lift, bind, Except.bind, h,
      Json.skip_asTree]
  some name value rest names record last field h := by
    simp only [Json.membersAsTrees, members, Problem.lift, bind, Except.bind, h]
    exact once_eq_ok (P := name ∈ names)

theorem Content.takes_members (fields : List (Field Json α)) :
    Field.Takes fields id (members fields) where
  nil names record last := by
    rw [members]
    cases Field.missing? fields names <;> simp
  none name value rest names record h := by
    simp only [members, h]
  some name value rest names record last field h := by
    simp only [members, h]
    exact once_eq_ok (P := name ∈ names)

theorem Reader.record_object (wanted : String) {fields : List (Field Tree α)} :
    record wanted fields start (Json.object ms).asTree = .ok last ↔
      Field.Complete fields ms ∧
        Field.Fills fields Json.asTree (Field.known fields ms) start last :=
  (takes_members fields).begin_eq_ok

theorem Content.record_object (wanted : String) {fields : List (Field Json α)} :
    record wanted fields start (.object ms) = .ok last ↔
      Field.Complete fields ms ∧
        Field.Fills fields id (Field.known fields ms) start last :=
  (takes_members fields).begin_eq_ok

end Readers

/-! ## The order of members -/

namespace Field

section Order

variable {σ τ α β γ : Type} {fields : List (Field τ α)} {view : σ → τ}
  {ms ms' : List (String × σ)} {first last : α}

/-- Two fields that do not mind which of them is read first. -/
def Commutes (f g : Field τ α) : Prop :=
  ∀ v w record last, (f.read v record >>= g.read w) = .ok last ↔
    (g.read w record >>= f.read v) = .ok last

instance : Std.Symm (@Commutes τ α) where
  symm _ _ h v w record last := (h w v record last).symm

theorem commutes_of {name name' : String} {presence presence' : Presence}
    {read : τ → Except Problem β} {read' : τ → Except Problem γ}
    {put : β → α → α} {put' : γ → α → α}
    (h : ∀ b c record, put' c (put b record) = put b (put' c record)) :
    Commutes (.of name presence read put) (.of name' presence' read' put') := by
  intro v w record last
  cases hv : read v <;> cases hw : read' w <;>
    simp [of, hv, hw, h, bind, Except.bind, pure, Except.pure]

/-- Members that there are fields for may come in any order, if no two of them
have the same name. -/
theorem Fills.perm (hfields : fields.Pairwise Commutes) (hperm : ms.Perm ms')
    (hdistinct : (ms.map (·.1)).Nodup)
    (h : Fills fields view ms first last) :
    Fills fields view ms' first last := by
  induction hperm generalizing first with
  | nil => exact h
  | cons m _ ih =>
      rw [List.map_cons, List.nodup_cons] at hdistinct
      cases h with
      | cons known read filled =>
          exact .cons known read (ih hdistinct.2 filled)
  | swap m m' rest =>
      cases h with
      | @cons name v _ f _ _ _ hf hread h =>
          cases h with
          | @cons name' w _ g _ next _ hg hread' h =>
              -- members of different names go to different fields
              have hne : f ≠ g := by
                rintro rfl
                have hname := (find?_name hf).symm.trans (find?_name hg)
                simp [hname] at hdistinct
              have hcommutes := hfields.forall (List.mem_of_find?_eq_some hf)
                (List.mem_of_find?_eq_some hg) hne
              obtain ⟨other, hother, hlast⟩ := bind_eq_ok.mp
                ((hcommutes _ _ _ _).mp (bind_eq_ok.mpr ⟨_, hread, hread'⟩))
              exact .cons hg hother (.cons hf hlast h)
  | trans hperm _ ih ih' =>
      exact ih' ((hperm.map _).nodup_iff.mp hdistinct) (ih hdistinct h)

theorem Complete.perm (h : Complete fields ms) (hperm : ms.Perm ms') :
    Complete fields ms' where
  distinct := ((hperm.filter _).map _).nodup_iff.mp h.distinct
  given field hfield hrequired :=
    (hperm.map _).mem_iff.mp (h.given field hfield hrequired)

end Order

end Field

/-! ## Objects in other forms -/

section Forms

variable {τ α β : Type} {fields : List (Field τ α)} {view : Json → τ}
  {start : α} {reads : Json → α → Prop} {names : List String}
  {defaults : List (String × Json)}

/-- What an object is read as stays the same if its members are put in another
order, if one in front that holds a default is deleted, and if one of another
name is added there. -/
structure Steady (names : List String) (defaults : List (String × Json))
    (reads : Json → α → Prop) : Prop where
  permute : ∀ {ms ms' a}, ms.Perm ms' →
    reads (.object ms) a → reads (.object ms') a
  delete : ∀ {m ms a}, m ∈ defaults →
    reads (.object (m :: ms)) a → reads (.object ms) a
  add : ∀ {name value ms a}, name ∉ names →
    reads (.object ms) a → reads (.object ((name, value) :: ms)) a

namespace Field

/-- Fields with different names that may be read in any order. -/
structure Independent (fields : List (Field τ α)) : Prop where
  distinct : (fields.map (·.name)).Nodup
  commutes : fields.Pairwise Commutes

/-- Objects are read as records. -/
def ReadsRecord (fields : List (Field τ α)) (view : Json → τ) (start : α)
    (reads : Json → α → Prop) : Prop :=
  ∀ ms last, reads (.object ms) last ↔
    Complete fields ms ∧ Fills fields view (known fields ms) start last

/-- A member that a record may do without and that holds what the record starts
with. -/
def Idle (fields : List (Field τ α)) (view : Json → τ) (start : α)
    (m : String × Json) : Prop :=
  ∃ field, find? fields m.1 = some field ∧ field.presence = .defaulted ∧
    field.read (view m.2) start = .ok start

theorem Complete.of_cons {m : String × Json} {ms : List (String × Json)}
    {field : Field τ α} (hdistinct : (fields.map (·.name)).Nodup)
    (hfield : find? fields m.1 = some field)
    (hpresence : field.presence = .defaulted)
    (h : Complete fields (m :: ms)) : Complete fields ms where
  distinct := by
    have hnodup := h.distinct
    rw [known_cons_of_some hfield] at hnodup
    exact (List.nodup_cons.mp hnodup).2
  given other hother hrequired := by
    refine (List.mem_cons.mp (h.given other hother hrequired)).resolve_left ?_
    intro hname
    obtain rfl := List.inj_on_of_nodup_map hdistinct hother
      (List.mem_of_find?_eq_some hfield) (hname.trans (find?_name hfield).symm)
    rw [hpresence] at hrequired
    cases hrequired

theorem Complete.cons_of_none {name : String} {value : Json}
    {ms : List (String × Json)} (hnone : find? fields name = none)
    (h : Complete fields ms) : Complete fields ((name, value) :: ms) where
  distinct := by
    rw [known_cons_of_none hnone]
    exact h.distinct
  given field hfield hrequired :=
    List.mem_cons_of_mem _ (h.given field hfield hrequired)

theorem Independent.steady (hfields : Independent fields)
    (hreads : ReadsRecord fields view start reads)
    (hdefaults : ∀ m ∈ defaults, Idle fields view start m) :
    Steady (fields.map (·.name)) defaults reads where
  permute := by
    intro ms ms' a hperm h
    obtain ⟨hcomplete, hfills⟩ := (hreads _ _).mp h
    exact (hreads _ _).mpr ⟨hcomplete.perm hperm,
      hfills.perm hfields.commutes (hperm.filter _) hcomplete.distinct⟩
  delete := by
    intro m ms a hm h
    obtain ⟨field, hfield, hpresence, hidle⟩ := hdefaults m hm
    obtain ⟨hcomplete, hfills⟩ := (hreads _ _).mp h
    rw [known_cons_of_some hfield, fills_cons hfield] at hfills
    obtain ⟨next, hread, hfills⟩ := hfills
    -- the default is read into the record that the others start with anyway
    obtain rfl := Except.ok.inj (hidle.symm.trans hread)
    exact (hreads _ _).mpr
      ⟨hcomplete.of_cons hfields.distinct hfield hpresence, hfills⟩
  add := by
    intro name value ms a hname h
    obtain ⟨hcomplete, hfills⟩ := (hreads _ _).mp h
    have hnone : find? fields name = none := by
      rw [find?_eq_none]
      exact fun field hfield heq =>
        hname (heq ▸ List.mem_map_of_mem hfield)
    exact (hreads _ _).mpr ⟨hcomplete.cons_of_none hnone,
      by rwa [known_cons_of_none hnone]⟩

/-- A member may be changed if what its field makes of it stays the same. -/
theorem ReadsRecord.part (hreads : ReadsRecord fields view start reads)
    {name : String} {field : Field τ α}
    (hfield : find? fields name = some field) {j j' : Json}
    (hpart : ∀ record next, field.read (view j) record = .ok next →
      field.read (view j') record = .ok next)
    {ms : List (String × Json)} {a : α}
    (h : reads (.object ((name, j) :: ms)) a) :
    reads (.object ((name, j') :: ms)) a := by
  obtain ⟨⟨hdistinct, hgiven⟩, hfills⟩ := (hreads _ _).mp h
  rw [known_cons_of_some hfield] at hdistinct hfills
  rw [fills_cons hfield] at hfills
  obtain ⟨next, hread, hfills⟩ := hfills
  refine (hreads _ _).mpr ⟨⟨?_, hgiven⟩, ?_⟩
  · rw [known_cons_of_some hfield]
    exact hdistinct
  · rw [known_cons_of_some hfield, fills_cons hfield]
    exact ⟨next, hpart _ _ hread, hfills⟩

end Field

end Forms

/-! ## Beside a tag -/

section Tags

variable {α β : Type} {tag : String} {variant : Json → Except Problem α}
  {ms ms' : List (String × Json)} {choice : α}

/-- The members beside a tag. -/
def besideTag (tag : String) (ms : List (String × Json)) :
    List (String × Json) :=
  ms.filter (·.1 ≠ tag)

/-- One member alone is the tag, and it names a variant. -/
def Tagged (tag : String) (variant : Json → Except Problem α)
    (ms : List (String × Json)) (choice : α) : Prop :=
  ∃ j, ms.filter (·.1 = tag) = [(tag, j)] ∧ variant j = .ok choice

theorem Tagged.perm (h : Tagged tag variant ms choice) (hperm : ms.Perm ms') :
    Tagged tag variant ms' choice := by
  obtain ⟨j, hj, hchoice⟩ := h
  refine ⟨j, ?_, hchoice⟩
  exact List.perm_singleton.mp (hj ▸ (hperm.filter _).symm)

theorem tagged_cons_of_ne {name : String} {j : Json} (h : name ≠ tag) :
    Tagged tag variant ((name, j) :: ms) choice ↔
      Tagged tag variant ms choice := by
  rw [Tagged, Tagged, List.filter_cons_of_neg (by simpa using h)]

theorem besideTag_cons_of_ne {name : String} {j : Json} (h : name ≠ tag) :
    besideTag tag ((name, j) :: ms) = (name, j) :: besideTag tag ms :=
  List.filter_cons_of_pos (by simpa using h)

theorem tagged_cons_self {j : Json} :
    Tagged tag variant ((tag, j) :: ms) choice ↔
      variant j = .ok choice ∧ ∀ m ∈ ms, m.1 ≠ tag := by
  rw [Tagged, List.filter_cons_of_pos (by simp)]
  simp [List.filter_eq_nil_iff, and_comm]

theorem besideTag_cons_self {j : Json} :
    besideTag tag ((tag, j) :: ms) = besideTag tag ms :=
  List.filter_cons_of_neg (by simp)

theorem besideTag_eq_self (h : ∀ m ∈ ms, m.1 ≠ tag) : besideTag tag ms = ms :=
  List.filter_eq_self.mpr (by simpa using h)

/-- A reader of members takes out the first one that is the tag and does not
bear a second one. -/
structure TakesOut (tag : String) (variant : Json → Except Problem α)
    (run : Option α → List (String × Json) → List (String × Json) →
      Except Problem (α × Json)) : Prop where
  nil_none : ∀ content result, run none content [] ≠ .ok result
  nil_some : ∀ choice content,
    run (some choice) content [] = .ok (choice, .object content.reverse)
  tag_none : ∀ content j rest, run none content ((tag, j) :: rest) =
    variant j >>= fun choice => run (some choice) content rest
  tag_some : ∀ choice content j rest result,
    run (some choice) content ((tag, j) :: rest) ≠ .ok result
  other : ∀ found content name j rest, name ≠ tag →
    run found content ((name, j) :: rest) =
      run found ((name, j) :: content) rest

namespace TakesOut

variable {run : Option α → List (String × Json) → List (String × Json) →
  Except Problem (α × Json)}

theorem run_some (h : TakesOut tag variant run)
    {content : List (String × Json)} {result : α × Json} :
    run (some choice) content ms = .ok result ↔
      (∀ m ∈ ms, m.1 ≠ tag) ∧
        (choice, .object (content.reverse ++ ms)) = result := by
  induction ms generalizing content with
  | nil => simp [h.nil_some]
  | cons m rest ih =>
      obtain ⟨name, j⟩ := m
      by_cases hname : name = tag
      · subst hname
        simp [h.tag_some]
      · rw [h.other _ _ _ _ _ hname, ih]
        simp [hname]

theorem run_none (h : TakesOut tag variant run)
    {content : List (String × Json)} {rest : Json} :
    run none content ms = .ok (choice, rest) ↔
      Tagged tag variant ms choice ∧
        .object (content.reverse ++ besideTag tag ms) = rest := by
  induction ms generalizing content with
  | nil => simp [h.nil_none, Tagged]
  | cons m ms ih =>
      obtain ⟨name, j⟩ := m
      by_cases hname : name = tag
      · subst hname
        rw [h.tag_none, tagged_cons_self, besideTag_cons_self, bind_eq_ok]
        simp only [h.run_some, Prod.mk.injEq]
        constructor
        · rintro ⟨_, hj, hother, rfl, rfl⟩
          exact ⟨⟨hj, hother⟩, by rw [besideTag_eq_self hother]⟩
        · rintro ⟨⟨hj, hother⟩, rfl⟩
          exact ⟨_, hj, hother, rfl, by rw [besideTag_eq_self hother]⟩
      · rw [h.other _ _ _ _ _ hname, ih, tagged_cons_of_ne hname,
          besideTag_cons_of_ne hname]
        simp

end TakesOut

variable (tag) in
theorem Reader.takesOut_taggedMembers (variants : Variants α) :
    TakesOut tag (fun j => variantName variants j.asTree)
      fun found content ms =>
        taggedMembers tag variants found content (Json.membersAsTrees ms)
          .closed where
  nil_none _ _ h := by cases h
  nil_some _ _ := rfl
  tag_none content j rest := by
    simp only [Json.membersAsTrees, taggedMembers, Problem.lift, bind,
      Except.bind, if_true]
    rfl
  tag_some choice content j rest result h := by
    simp only [Json.membersAsTrees, taggedMembers, Problem.lift, bind,
      Except.bind, if_true] at h
    cases h
  other found content name j rest hname := by
    simp only [Json.membersAsTrees, taggedMembers, Problem.lift, bind,
      Except.bind, if_neg hname, Json.json_asTree]

variable (tag) in
theorem Content.takesOut_taggedMembers (variants : Variants α) :
    TakesOut tag (variantName variants) (taggedMembers tag variants) where
  nil_none _ _ h := by cases h
  nil_some _ _ := rfl
  tag_none content j rest := by
    simp only [taggedMembers, if_true]
    rfl
  tag_some choice content j rest result h := by
    simp only [taggedMembers, if_true] at h
    cases h
  other found content name j rest hname := by
    simp only [taggedMembers, if_neg hname]

theorem Reader.tagged_object {wanted : String} {variants : Variants α}
    {rest : Json} :
    tagged tag wanted variants (Json.object ms).asTree = .ok (choice, rest) ↔
      Tagged tag (fun j => variantName variants j.asTree) ms choice ∧
        .object (besideTag tag ms) = rest :=
  (takesOut_taggedMembers tag variants).run_none

theorem Content.tagged_object {wanted : String} {variants : Variants α}
    {rest : Json} :
    tagged tag wanted variants (.object ms) = .ok (choice, rest) ↔
      Tagged tag (variantName variants) ms choice ∧
        .object (besideTag tag ms) = rest :=
  (takesOut_taggedMembers tag variants).run_none

/-- What is beside a tag may be changed as it could be without one, and the tag
may stand anywhere. -/
theorem Steady.tagged {names : List String} {defaults : List (String × Json)}
    {content reads : Json → β → Prop} (h : Steady names defaults content)
    (hdefaults : ∀ m ∈ defaults, m.1 ≠ tag)
    (hreads : ∀ ms b, reads (.object ms) b ↔
      Tagged tag variant ms choice ∧ content (.object (besideTag tag ms)) b) :
    Steady (tag :: names) defaults reads where
  permute := by
    intro ms ms' b hperm hread
    obtain ⟨htag, hcontent⟩ := (hreads _ _).mp hread
    exact (hreads _ _).mpr
      ⟨htag.perm hperm, h.permute (hperm.filter _) hcontent⟩
  delete := by
    intro m ms b hm hread
    have hname := hdefaults m hm
    obtain ⟨htag, hcontent⟩ := (hreads _ _).mp hread
    rw [besideTag_cons_of_ne hname] at hcontent
    exact (hreads _ _).mpr
      ⟨(tagged_cons_of_ne hname).mp htag, h.delete hm hcontent⟩
  add := by
    intro name value ms b hname hread
    obtain ⟨hname, hother⟩ := List.ne_and_not_mem_of_not_mem_cons hname
    obtain ⟨htag, hcontent⟩ := (hreads _ _).mp hread
    refine (hreads _ _).mpr ⟨(tagged_cons_of_ne hname).mpr htag, ?_⟩
    rw [besideTag_cons_of_ne hname]
    exact h.add hother hcontent

/-- A part beside a tag may be changed as it could be without one. -/
theorem part_beside (content : Json → β → Prop) {reads : Json → β → Prop}
    (hreads : ∀ ms b, reads (.object ms) b ↔
      Tagged tag variant ms choice ∧ content (.object (besideTag tag ms)) b)
    {name : String} (hname : name ≠ tag) {j j' : Json}
    (hpart : ∀ ms b, content (.object ((name, j) :: ms)) b →
      content (.object ((name, j') :: ms)) b)
    {b : β} (h : reads (.object ((name, j) :: ms)) b) :
    reads (.object ((name, j') :: ms)) b := by
  obtain ⟨htag, hcontent⟩ := (hreads _ _).mp h
  rw [tagged_cons_of_ne hname] at htag
  rw [besideTag_cons_of_ne hname] at hcontent
  refine (hreads _ _).mpr ⟨(tagged_cons_of_ne hname).mpr htag, ?_⟩
  rw [besideTag_cons_of_ne hname]
  exact hpart _ _ hcontent

end Tags

end Flowgraph
