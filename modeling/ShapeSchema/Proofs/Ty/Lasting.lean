import ShapeSchema.Proofs.Ty.Constraints
import ShapeSchema.Proofs.Ty.NullApart

/-!
# Constraints of streaming types

A streaming type has the constraints of the nodes that last (`constraints_toStreamed`). Every node
does but two kinds that stand directly in a union which is not done: a union that nothing keeps
whole gives its members to the union around it, and of several nulls one is left.
-/

namespace ShapeSchema.Ty

/-! ## Nodes that last -/

/-- A union that leaves its members to the streaming union around it. -/
def dissolves (a : Authored) : Bool :=
  !(Metadata.hasChecks a || a.flags.done || a.flags.state)

/-- A type keeps its root: it stands in no union, or is neither null nor a union that dissolves. -/
def Stays (inUnion : Bool) (t : Ty Authored) : Prop :=
  inUnion = true → t.isNull = false ∧ (t.isUnion = true → dissolves t.ann = false)

mutual

/-- The null that a type brings into the union around it. -/
def broughtNull? : Ty Authored → Option Authored
  | prim .null a => some a
  | union ms null a => if dissolves a then null.or (broughtNulls? ms) else none
  | _ => none

/-- The first null that some types bring. -/
def broughtNulls? : List (Ty Authored) → Option Authored
  | [] => none
  | t :: ts => (broughtNull? t).or (broughtNulls? ts)

end

/-- The null that a union is left with: its own, else the first that a member brings. -/
def leftNull? (ms : List (Ty Authored)) (null : Option Authored) : Option Authored :=
  null.or (broughtNulls? ms)

/-- A node of a type stands in its streaming type as well; `inUnion` tells that the type is a member
of a union. -/
inductive Lasts : Bool → Ty Authored → Ty Authored → Prop
  | root {b : Bool} {t : Ty Authored} : Stays b t → Lasts b t t
  | whole {b : Bool} {t u : Ty Authored} :
    t.ann.flags.done = true → Stays b t → u ∈ t.nodes → Lasts b t u
  | child {b : Bool} {t u v : Ty Authored} :
    t.ann.flags.done = false → t.isUnion = false → v ∈ t.children → Lasts false v u → Lasts b t u
  | member {b : Bool} {ms : List (Ty Authored)} {null : Option Authored} {a : Authored}
    {m u : Ty Authored} :
    a.flags.done = false → m ∈ ms → Lasts true m u → Lasts b (union ms null a) u
  | null {b : Bool} {ms : List (Ty Authored)} {null : Option Authored} {a n : Authored} :
    a.flags.done = false → Stays b (union ms null a) → leftNull? ms null = some n →
      Lasts b (union ms null a) (prim .null n)

/-- A constraint belongs to a node that lasts. -/
def KeepsConstraint (b : Bool) (t : Ty Authored) (c : Constraint) : Prop :=
  ∃ u, Lasts b t u ∧ c ∈ u.ann.constraints

variable {t u : Ty Authored} {ts ms : List (Ty Authored)} {null : Option Authored}
  {a : Authored} {b : Bool} {c : Constraint}

theorem stays_false (t : Ty Authored) : Stays false t := fun h => absurd h Bool.false_ne_true

theorem broughtNulls?_eq (ts : List (Ty Authored)) :
    broughtNulls? ts = ts.findSome? broughtNull? := by
  induction ts with
  | nil => rfl
  | cons t ts ih =>
    rw [broughtNulls?, ih, List.findSome?_cons]
    cases broughtNull? t <;> rfl

theorem dissolves_of_done (h : a.flags.done = true) : dissolves a = false := by
  simp [dissolves, h]

/-! ## Constraints that are kept, by form -/

/-- What is done lasts to the leaves. -/
theorem keepsConstraint_of_done (hd : t.ann.flags.done = true) :
    KeepsConstraint b t c ↔ Stays b t ∧ c ∈ t.allConstraints := by
  constructor
  · rintro ⟨u, hu, hc⟩
    have hnodes : Stays b t ∧ u ∈ t.nodes := by
      cases hu with
      | root hs => exact ⟨hs, mem_nodes t⟩
      | whole _ hs hmem => exact ⟨hs, hmem⟩
      | child hd' => rw [hd] at hd'; cases hd'
      | member hd' => cases hd.symm.trans hd'
      | null hd' => cases hd.symm.trans hd'
    exact ⟨hnodes.1, List.mem_flatMap.2 ⟨u, hnodes.2, hc⟩⟩
  · rintro ⟨hs, hc⟩
    obtain ⟨u, hu, hc⟩ := List.mem_flatMap.1 hc
    exact ⟨u, .whole hd hs hu, hc⟩

theorem keepsConstraint_of_plain (hd : t.ann.flags.done = false) (hunion : t.isUnion = false) :
    KeepsConstraint b t c ↔
      (Stays b t ∧ c ∈ t.ann.constraints) ∨ ∃ v ∈ t.children, KeepsConstraint false v c := by
  constructor
  · rintro ⟨u, hu, hc⟩
    cases hu with
    | root hs => exact .inl ⟨hs, hc⟩
    | whole hd' => rw [hd] at hd'; cases hd'
    | child _ _ hv hu => exact .inr ⟨_, hv, u, hu, hc⟩
    | member => cases hunion
    | null => cases hunion
  · rintro (⟨hs, hc⟩ | ⟨v, hv, u, hu, hc⟩)
    · exact ⟨t, .root hs, hc⟩
    · exact ⟨u, .child hd hunion hv hu, hc⟩

theorem keepsConstraint_union (hd : a.flags.done = false) :
    KeepsConstraint b (union ms null a) c ↔
      (Stays b (union ms null a) ∧
        (c ∈ a.constraints ∨ ∃ n ∈ leftNull? ms null, c ∈ n.constraints)) ∨
      ∃ m ∈ ms, KeepsConstraint true m c := by
  constructor
  · rintro ⟨u, hu, hc⟩
    cases hu with
    | root hs => exact .inl ⟨hs, .inl hc⟩
    | whole hd' => cases hd.symm.trans hd'
    | child _ hunion => cases hunion
    | member _ hm hu => exact .inr ⟨_, hm, u, hu, hc⟩
    | null _ hs hn => exact .inl ⟨hs, .inr ⟨_, hn, hc⟩⟩
  · rintro (⟨hs, hc | ⟨n, hn, hc⟩⟩ | ⟨m, hm, u, hu, hc⟩)
    · exact ⟨_, .root hs, hc⟩
    · exact ⟨_, .null hd hs hn, hc⟩
    · exact ⟨u, .member hd hm hu, hc⟩

/-! ## Streaming types, by form -/

theorem mem_allConstraints_mapAnn {μ ν : Type} [Metadata μ] [Metadata ν] {f : Ty μ → ν}
    (hf : ∀ t, Metadata.constraints (f t) = Metadata.constraints t.ann) (mode : Option Mode)
    (t : Ty μ) : c ∈ (t.mapAnn f mode).allConstraints ↔ c ∈ t.allConstraints := by
  induction t using inductChildren with
  | step t ih =>
    have hann : Metadata.constraints (t.mapAnn f mode).ann = Metadata.constraints t.ann := by
      cases t <;> exact hf _
    rw [mem_allConstraints_iff, mem_allConstraints_iff (t := t), hann, children_mapAnn]
    simp only [List.mem_map, exists_exists_and_eq_and]
    exact or_congr_right (exists_congr fun u => and_congr_right fun hu => ih u hu)

theorem mem_allConstraints_withAnn {μ : Type} [Metadata μ] {t : Ty μ} {a : μ}
    (h : Metadata.constraints a = Metadata.constraints t.ann) :
    c ∈ (t.withAnn a).allConstraints ↔ c ∈ t.allConstraints := by
  have hann : (t.withAnn a).ann = a := by cases t <;> rfl
  have hchildren : (t.withAnn a).children = t.children := by cases t <;> rfl
  rw [mem_allConstraints_iff, mem_allConstraints_iff (t := t), hann, hchildren, h]

theorem mem_allConstraints_whole : c ∈ t.whole.allConstraints ↔ c ∈ t.allConstraints := by
  unfold whole
  refine (mem_allConstraints_withAnn ?_).trans (mem_allConstraints_mapAnn (fun _ => ?_) _ t)
  · rfl
  · rfl

/-- A null without constraints adds none. -/
theorem mem_allConstraints_optionalOf {t : Ty Streamed} {n : Streamed} (hn : n.constraints = []) :
    c ∈ (optionalOf t n).allConstraints ↔ c ∈ t.allConstraints := by
  unfold optionalOf
  split
  · exact Iff.rfl
  · exact Iff.rfl
  · rw [mem_allConstraints_union, mem_allConstraints_union]
    simp [Metadata.constraints, hn]
  · rw [mem_allConstraints_union]
    simp [Metadata.constraints, hn]

theorem mem_allConstraints_wholeOf :
    c ∈ (wholeOf b t).allConstraints ↔ c ∈ t.allConstraints := by
  unfold wholeOf
  split
  · exact mem_allConstraints_whole
  · rw [mem_allConstraints_optionalOf rfl, mem_allConstraints_whole]

theorem mem_allConstraints_streamLeaf {bare whole : Bool} {build : Streamed → Ty Streamed}
    (hann : ∀ x, (build x).ann = x) (hchildren : ∀ x, (build x).children = []) :
    c ∈ (streamLeaf a bare whole build).allConstraints ↔ c ∈ a.constraints := by
  have hbuild : ∀ x, c ∈ (build x).allConstraints ↔ c ∈ x.constraints := by
    intro x
    rw [mem_allConstraints_iff, hann, hchildren]
    simp [Metadata.constraints]
  unfold streamLeaf
  split
  · exact hbuild _
  · exact (mem_allConstraints_optionalOf rfl).trans (hbuild _)

/-- A node of another form than a union hands on its own constraints and those below it. -/
theorem mem_allConstraints_stream (hd : t.ann.flags.done = false) (hunion : t.isUnion = false) :
    c ∈ (t.stream b).allConstraints ↔
      c ∈ t.ann.constraints ∨ ∃ u ∈ t.children, c ∈ (u.stream false).allConstraints := by
  have hnone : ¬ ∃ u ∈ ([] : List (Ty Authored)), c ∈ (u.stream false).allConstraints := by simp
  cases t with
  | prim p a =>
    rw [show (prim p a).children = [] from rfl, or_iff_left hnone]
    by_cases hp : p = .null
    · subst hp
      rw [stream, if_neg (by simpa [ann] using hd)]
      exact mem_allConstraints_prim _ _
    · rw [stream_prim hp, if_neg (by simpa [ann] using hd)]
      exact mem_allConstraints_streamLeaf (fun _ => rfl) fun _ => rfl
  | list i a =>
    rw [stream, if_neg (by simpa [ann] using hd), mem_allConstraints_iff]
    simp [children, passOn, ann, Metadata.constraints]
  | map k v a =>
    rw [stream, if_neg (by simpa [ann] using hd), mem_allConstraints_iff]
    simp [children, passOn, ann, Metadata.constraints]
  | tuple is a =>
    rw [stream, if_neg (by simpa [ann] using hd), mem_allConstraints_iff]
    simp [children, passOn, ann, Metadata.constraints, streamAll_eq_map]
  | arrow ps r a =>
    rw [stream, if_neg (by simpa [ann] using hd), mem_allConstraints_iff]
    simp [children, passOn, ann, Metadata.constraints, streamAll_eq_map]
  | union ms null a => cases hunion
  | _ =>
    rw [stream, if_neg (by simpa [ann] using hd)]
    refine (mem_allConstraints_streamLeaf (fun _ => rfl) fun _ => rfl).trans ?_
    exact (or_iff_left hnone).symm

/-! ## Nulls of streaming unions -/

/-- The null of a streaming union, which stands outside if it is `bare`. -/
def streamedNull (ms : List (Ty Authored)) (null : Option Authored) (bare : Bool) :
    Option Streamed :=
  streamNull
    (null.map fun n =>
      if n.flags.done then (⟨n.constraints, true, n.flags.state⟩ : Streamed) else passOn n)
    (flattenAll keepsApart (streamAll true ms)) bare

theorem stream_union_eq (hd : a.flags.done = false) :
    (union ms null a).stream b =
      union (streamMembers ms) (streamedNull ms null (b || a.flags.needed)) (passOn a) := by
  rw [stream, if_neg (by simp [hd])]
  rfl

theorem flatten_stream_of_flat (h : t.isUnion = true → dissolves t.ann = false) :
    flatten keepsApart (t.stream true) = [t.stream true] := by
  refine flatten_of_flatIn fun hu => ?_
  rw [isUnion_stream] at hu
  rw [keepsApart_stream hu]
  have hkept := h hu
  simp only [dissolves, Bool.not_eq_false'] at hkept
  rw [← hkept]

/-- A union that dissolves contributes its members and the null that it is left with. -/
theorem flatten_stream_of_dissolves (h : dissolves a = true) :
    flatten keepsApart ((union ms null a).stream true) =
      streamMembers ms ++ nullMember (streamedNull ms null true) := by
  have hapart : (Metadata.hasChecks a || a.flags.done || a.flags.state) = false := by
    rwa [dissolves, Bool.not_eq_true'] at h
  have hd : a.flags.done = false := by
    simp only [Bool.or_eq_false_iff] at hapart
    exact hapart.1.2
  have hkeep : keepsApart (passOn a) = false := by
    have hunion := keepsApart_stream (t := union ms null a) rfl
    rw [stream_union_eq hd] at hunion
    exact hunion.trans hapart
  rw [stream_union_eq hd, flatten, if_neg (by simp [hkeep]), Bool.true_or,
    flattenAll_of_flatIn flatIn_streamMembers]

/-- A type that keeps its root and is not null itself contributes no null. -/
theorem findSome_stream_of_flat (hnull : t.isNull = false)
    (h : t.isUnion = true → dissolves t.ann = false) :
    (flatten keepsApart (t.stream true)).findSome? nullAnn? = none := by
  rw [flatten_stream_of_flat h]
  refine findSome_nullAnn fun m hm => ?_
  rw [List.mem_singleton.1 hm, isNull_stream, hnull]

/-- The first null that the members of a union bring, seen in the members' streaming types. -/
theorem constraints_streamedNull
    (h : ∀ m ∈ ms, ((flatten keepsApart (m.stream true)).findSome? nullAnn?).map
      Streamed.constraints = (broughtNull? m).map Authored.constraints)
    (null : Option Authored) :
    (streamedNull ms null true).map Streamed.constraints =
      (leftNull? ms null).map Authored.constraints := by
  have hfirst : ((flattenAll keepsApart (streamAll true ms)).findSome? nullAnn?).map
      Streamed.constraints = (broughtNulls? ms).map Authored.constraints := by
    induction ms with
    | nil => rfl
    | cons m ms ih =>
      have hrest := ih fun m' hm' => h m' (List.mem_cons_of_mem _ hm')
      rw [streamAll, flattenAll, List.findSome?_append, broughtNulls?, Option.map_or, Option.map_or,
        h m List.mem_cons_self, hrest]
  unfold streamedNull streamNull leftNull?
  cases null with
  | none =>
    rw [Option.map_none, Option.none_or, Option.none_or, ← hfirst]
    cases (flattenAll keepsApart (streamAll true ms)).findSome? nullAnn? <;> rfl
  | some n =>
    rw [Option.map_some, Option.some_or, Option.some_or]
    show some _ = some n.constraints
    cases n.flags.done <;> rfl

/-- The first null that a streaming type contributes has the constraints of the null it brings. -/
theorem constraints_broughtNull (t : Ty Authored) :
    ((flatten keepsApart (t.stream true)).findSome? nullAnn?).map Streamed.constraints =
      (broughtNull? t).map Authored.constraints := by
  induction t using induct with
  | union ms null a ih =>
    cases hdis : dissolves a with
    | true =>
      have hmembers : (streamMembers ms).findSome? nullAnn? = none :=
        findSome_nullAnn fun m hm => (mem_streamMembers.1 hm).2
      have hnull : (nullMember (streamedNull ms null true)).findSome? nullAnn?
          = streamedNull ms null true := by
        cases streamedNull ms null true <;> rfl
      rw [flatten_stream_of_dissolves hdis, List.findSome?_append, hmembers, Option.none_or, hnull,
        broughtNull?, if_pos hdis]
      exact constraints_streamedNull ih null
    | false =>
      have hnone := findSome_stream_of_flat (t := union ms null a) rfl fun _ => hdis
      rw [hnone, broughtNull?, if_neg (by simp [hdis])]
      rfl
  | prim p a =>
    by_cases hp : p = .null
    · subst hp
      rw [flatten_stream_of_flat (fun h => by cases h), stream]
      cases hd : a.flags.done <;> rfl
    · have hnull : (prim p a).isNull = false := by cases p <;> first | rfl | exact absurd rfl hp
      rw [findSome_stream_of_flat hnull (fun h => by cases h)]
      cases p <;> first | rfl | exact absurd rfl hp
  | _ =>
    rw [findSome_stream_of_flat rfl (fun h => by cases h)]
    rfl

/-- Whatever null a streaming union has, its constraints are those of the null it is left with. -/
theorem mem_streamedNull (bare : Bool) :
    (∃ n ∈ streamedNull ms null bare, c ∈ n.constraints) ↔
      ∃ n ∈ leftNull? ms null, c ∈ n.constraints := by
  have htrue : (∃ n ∈ streamedNull ms null true, c ∈ n.constraints) ↔
      ∃ n ∈ leftNull? ms null, c ∈ n.constraints := by
    have heq : (streamedNull ms null true).map Streamed.constraints =
        (leftNull? ms null).map Authored.constraints :=
      constraints_streamedNull (fun m _ => constraints_broughtNull m) null
    cases hs : streamedNull ms null true with
    | none =>
      rw [hs] at heq
      simp [Option.map_eq_none_iff.1 heq.symm]
    | some x =>
      rw [hs] at heq
      obtain ⟨n, hn, hx⟩ := Option.map_eq_some_iff.1 heq.symm
      simp [hn, hx]
  rw [← htrue]
  cases bare with
  | true => exact Iff.rfl
  | false =>
    -- only a null without constraints can be new
    unfold streamedNull streamNull
    split
    · exact Iff.rfl
    · simp

/-! ## The main result -/

/-- What a type passes on to a streaming union around it, nulls aside. -/
def PassesOn (t : Ty Authored) (c : Constraint) : Prop :=
  ∃ m ∈ flatten keepsApart (t.stream true), m.isNull = false ∧ c ∈ m.allConstraints

theorem mem_streamMembers_iff : (∃ m ∈ streamMembers ms, c ∈ m.allConstraints) ↔
    ∃ m ∈ ms, PassesOn m c := by
  constructor
  · rintro ⟨m, hm, hc⟩
    obtain ⟨⟨t, ht, hmt⟩, hnull⟩ := mem_streamMembers.1 hm
    exact ⟨t, ht, m, hmt, hnull, hc⟩
  · rintro ⟨t, ht, m, hmt, hnull, hc⟩
    exact ⟨m, mem_streamMembers.2 ⟨⟨t, ht, hmt⟩, hnull⟩, hc⟩

theorem passesOn_of_flat (h : t.isUnion = true → dissolves t.ann = false) :
    PassesOn t c ↔ Stays true t ∧ c ∈ (t.stream true).allConstraints := by
  unfold PassesOn
  rw [flatten_stream_of_flat h]
  simp only [List.mem_singleton, exists_eq_left, isNull_stream]
  exact and_congr_left' ⟨fun hn _ => ⟨hn, h⟩, fun hs => (hs rfl).1⟩

theorem mem_allConstraints_stream_union (hd : a.flags.done = false) :
    c ∈ ((union ms null a).stream b).allConstraints ↔
      (c ∈ a.constraints ∨ ∃ n ∈ leftNull? ms null, c ∈ n.constraints) ∨
        ∃ m ∈ ms, PassesOn m c := by
  rw [stream_union_eq hd, mem_allConstraints_union, mem_streamMembers_iff, or_left_comm, or_comm]
  exact or_congr_left (or_congr_right (mem_streamedNull _))

theorem passesOn_of_dissolves (h : dissolves a = true) :
    PassesOn (union ms null a) c ↔ ∃ m ∈ ms, PassesOn m c := by
  rw [← mem_streamMembers_iff]
  unfold PassesOn
  rw [flatten_stream_of_dissolves h]
  constructor
  · rintro ⟨m, hm, hnull, hc⟩
    rcases List.mem_append.1 hm with hm | hm
    · exact ⟨m, hm, hc⟩
    · rw [isNull_of_mem_nullMember hm] at hnull
      cases hnull
  · rintro ⟨m, hm, hc⟩
    exact ⟨m, List.mem_append_left _ hm, (mem_streamMembers.1 hm).2, hc⟩

/-- What holds of a constraint in the streaming types of a node and in what the node keeps. -/
def Agrees (t : Ty Authored) (c : Constraint) : Prop :=
  (c ∈ (t.stream false).allConstraints ↔ KeepsConstraint false t c) ∧
    (PassesOn t c ↔ KeepsConstraint true t c)

theorem agrees_of_done (hd : t.ann.flags.done = true) : Agrees t c := by
  have hflat : t.isUnion = true → dissolves t.ann = false := fun _ => dissolves_of_done hd
  have hstream : ∀ b, c ∈ (t.stream b).allConstraints ↔ c ∈ t.allConstraints := by
    intro b
    rw [stream_of_done b hd]
    exact mem_allConstraints_wholeOf
  unfold Agrees
  rw [hstream, passesOn_of_flat hflat, hstream, keepsConstraint_of_done hd,
    keepsConstraint_of_done hd, and_iff_right (stays_false t)]
  exact ⟨Iff.rfl, Iff.rfl⟩

theorem agrees_of_plain (hd : t.ann.flags.done = false) (hunion : t.isUnion = false)
    (ih : ∀ v ∈ t.children, Agrees v c) : Agrees t c := by
  have hflat : t.isUnion = true → dissolves t.ann = false :=
    fun h => absurd (hunion.symm.trans h) Bool.false_ne_true
  have hbelow : (∃ v ∈ t.children, c ∈ (v.stream false).allConstraints) ↔
      ∃ v ∈ t.children, KeepsConstraint false v c :=
    exists_congr fun v => and_congr_right fun hv => (ih v hv).1
  -- null has no children, so a type with children keeps its root
  have hroot : (∃ v ∈ t.children, KeepsConstraint false v c) → Stays true t := by
    rintro ⟨v, hv, -⟩ -
    refine ⟨?_, hflat⟩
    cases t with
    | prim p a => cases hv
    | _ => rfl
  unfold Agrees
  rw [passesOn_of_flat hflat, mem_allConstraints_stream hd hunion,
    mem_allConstraints_stream hd hunion, keepsConstraint_of_plain hd hunion,
    keepsConstraint_of_plain hd hunion, hbelow, and_or_left, and_iff_right_of_imp hroot,
    and_iff_right (stays_false t)]
  exact ⟨Iff.rfl, Iff.rfl⟩

theorem agrees_union (hd : a.flags.done = false) (ih : ∀ m ∈ ms, Agrees m c) :
    Agrees (union ms null a) c := by
  have hmembers : (∃ m ∈ ms, PassesOn m c) ↔ ∃ m ∈ ms, KeepsConstraint true m c :=
    exists_congr fun m => and_congr_right fun hm => (ih m hm).2
  refine ⟨?_, ?_⟩
  · rw [mem_allConstraints_stream_union hd, keepsConstraint_union hd, hmembers,
      and_iff_right (stays_false _)]
  · rw [keepsConstraint_union hd]
    cases hdis : dissolves a with
    | true =>
      have hgone : ¬ Stays true (union ms null a) :=
        fun hs => Bool.false_ne_true (((hs rfl).2 rfl).symm.trans hdis)
      rw [passesOn_of_dissolves hdis, hmembers, or_iff_right fun h => hgone h.1]
    | false =>
      have hstays : Stays true (union ms null a) := fun _ => ⟨rfl, fun _ => hdis⟩
      have hflat := passesOn_of_flat (t := union ms null a) (c := c) fun _ => hdis
      rw [hflat, mem_allConstraints_stream_union hd, hmembers, and_iff_right hstays,
        and_iff_right hstays]

/-- A streaming type has the constraints that its type keeps, in a union and elsewhere. -/
theorem agrees (t : Ty Authored) (c : Constraint) : Agrees t c := by
  induction t using inductChildren with
  | step t ih =>
    cases hd : t.ann.flags.done with
    | true => exact agrees_of_done hd
    | false =>
      cases hunion : t.isUnion with
      | false => exact agrees_of_plain hd hunion ih
      | true =>
        cases t with
        | union ms null a => exact agrees_union hd fun m hm => ih m (List.mem_append_left _ hm)
        | _ => cases hunion

/-! ## Nodes that do not last -/

theorem mem_nodes_of_brought {n : Authored} (h : broughtNull? t = some n) :
    prim .null n ∈ t.nodes := by
  induction t using induct with
  | union ms null a ih =>
    rw [broughtNull?] at h
    split at h
    · rw [broughtNulls?_eq, Option.or_eq_some_iff] at h
      rcases h with h | ⟨-, h⟩
      · subst h
        exact mem_nodes_of_child (List.mem_append_right _ List.mem_cons_self) (mem_nodes _)
      · obtain ⟨m, hm, h⟩ := List.exists_of_findSome?_eq_some h
        exact mem_nodes_of_child (List.mem_append_left _ hm) (ih m hm h)
    · cases h
  | prim p a =>
    cases p with
    | null =>
      cases h
      exact mem_nodes _
    | _ => cases h
  | _ => cases h

theorem Lasts.mem (h : Lasts b t u) : u ∈ t.nodes := by
  induction h with
  | root _ => exact mem_nodes _
  | whole _ _ hu => exact hu
  | child _ _ hv _ ih => exact mem_nodes_of_child hv ih
  | member _ hm _ ih => exact mem_nodes_of_child (List.mem_append_left _ hm) ih
  | null _ _ hn =>
    rw [leftNull?, broughtNulls?_eq, Option.or_eq_some_iff] at hn
    rcases hn with rfl | ⟨-, hn⟩
    · exact mem_nodes_of_child (List.mem_append_right _ List.mem_cons_self) (mem_nodes _)
    · obtain ⟨m, hm, hn⟩ := List.exists_of_findSome?_eq_some hn
      exact mem_nodes_of_child (List.mem_append_left _ hm) (mem_nodes_of_brought hn)

/-- A null, or a union that dissolves, directly in a union that is not done. -/
def Displaced (t u : Ty Authored) : Prop :=
  ∃ w ∈ t.nodes, w.isUnion = true ∧ w.ann.flags.done = false ∧ u ∈ w.children ∧
    (u.isNull = true ∨ (u.isUnion = true ∧ dissolves u.ann = true))

theorem Displaced.of_child {v : Ty Authored} (hv : v ∈ t.children) (h : Displaced v u) :
    Displaced t u := by
  obtain ⟨w, hw, hrest⟩ := h
  exact ⟨w, mem_nodes_of_child hv hw, hrest⟩

/-- Every node lasts or is displaced, unless it is the root and its surroundings displace it. -/
theorem lasts_or_displaced (hu : u ∈ t.nodes) :
    Lasts b t u ∨ (u = t ∧ ¬ Stays b t) ∨ Displaced t u := by
  induction t using inductChildren generalizing b with
  | step t ih =>
    rw [mem_nodes_iff] at hu
    rcases hu with rfl | ⟨v, hv, hu⟩
    · by_cases hs : Stays b u
      · exact .inl (.root hs)
      · exact .inr (.inl ⟨rfl, hs⟩)
    · cases hd : t.ann.flags.done with
      | true =>
        have hs : Stays b t := by
          intro _
          refine ⟨?_, fun _ => dissolves_of_done hd⟩
          cases t with
          | prim p a => cases hv
          | _ => rfl
        exact .inl (.whole hd hs (mem_nodes_of_child hv hu))
      | false =>
        cases t with
        | union ms null a =>
          have displaced : v = u → v.isNull = true ∨ (v.isUnion = true ∧ dissolves v.ann = true) →
              Displaced (union ms null a) u := by
            rintro rfl hgone
            exact ⟨_, mem_nodes _, rfl, hd, hv, hgone⟩
          rcases List.mem_append.1 hv with hm | hn
          · rcases ih v hv (b := true) hu with hlasts | ⟨rfl, hs⟩ | hdis
            · exact .inl (.member hd hm hlasts)
            · refine .inr (.inr (displaced rfl ?_))
              unfold Stays at hs
              grind
            · exact .inr (.inr (hdis.of_child hv))
          · have hnull := isNull_of_mem_nullMember hn
            obtain ⟨n, rfl⟩ := eq_null_of_isNull hnull
            exact .inr (.inr (displaced (List.mem_singleton.1 hu).symm (.inl hnull)))
        | _ =>
          rcases ih v hv (b := false) hu with hlasts | ⟨-, hs⟩ | hdis
          · exact .inl (.child hd rfl hv hlasts)
          · exact absurd (stays_false v) hs
          · exact .inr (.inr (hdis.of_child hv))

/-- A streaming type has the constraints of the nodes that last, and no others. All nodes do, except
for nulls and unions without checks and flags that stand directly in a union which is not done. -/
theorem constraints_toStreamed (t : Ty Authored) :
    (∀ c, c ∈ t.toStreamed.allConstraints ↔ ∃ u, Lasts false t u ∧ c ∈ u.ann.constraints) ∧
    (∀ u, Lasts false t u → u ∈ t.nodes) ∧
    ∀ u ∈ t.nodes, Lasts false t u ∨ Displaced t u := by
  refine ⟨fun c => (agrees t c).1, fun u hu => hu.mem, fun u hu => ?_⟩
  rcases lasts_or_displaced (b := false) hu with hlasts | ⟨-, hs⟩ | hdis
  · exact .inl hlasts
  · exact absurd (stays_false t) hs
  · exact .inr hdis

theorem not_keepsConstraint_bare (b : Bool) (p : Prim) (c : Constraint) :
    ¬ KeepsConstraint b (prim p {}) c := by
  rw [keepsConstraint_of_plain rfl rfl]
  rintro (⟨-, hc⟩ | ⟨v, hv, -⟩)
  · cases hc
  · cases hv

/-- The amounts dissolve beside the flag, and the null of the outer union displaces theirs. -/
theorem loses_constraints_streamed :
    ⟨.assert, none, "this != 0"⟩ ∈ amountOrFlag.allConstraints ∧
    ⟨.assert, none, "this != 0"⟩ ∉ amountOrFlag.toStreamed.allConstraints ∧
    ⟨.assert, none, "settled"⟩ ∈ amountOrFlag.allConstraints ∧
    ⟨.assert, none, "settled"⟩ ∉ amountOrFlag.toStreamed.allConstraints := by
  have hamount : ∀ c, ¬ KeepsConstraint true amount c := by
    intro c
    have hgone : ¬ Stays true amount := fun hs => Bool.false_ne_true ((hs rfl).2 rfl).symm
    unfold amount at hgone ⊢
    rw [keepsConstraint_union rfl]
    rintro (⟨hs, -⟩ | ⟨m, hm, hc⟩)
    · exact hgone hs
    · rcases List.mem_pair.1 hm with rfl | rfl <;> exact not_keepsConstraint_bare _ _ _ hc
  have hkept : ∀ c, KeepsConstraint false amountOrFlag c → c = ⟨.assert, none, "open"⟩ := by
    intro c hc
    unfold amountOrFlag at hc
    rw [keepsConstraint_union rfl] at hc
    rcases hc with ⟨-, hc | ⟨n, hn, hc⟩⟩ | ⟨m, hm, hc⟩
    · cases hc
    · cases hn
      exact List.mem_singleton.1 hc
    · rcases List.mem_pair.1 hm with rfl | rfl
      · exact absurd hc (hamount c)
      · exact absurd hc (not_keepsConstraint_bare _ _ _)
  refine ⟨by decide, fun hc => ?_, by decide, fun hc => ?_⟩
  · have heq := hkept _ ((agrees amountOrFlag _).1.1 hc)
    exact absurd heq (by decide)
  · have heq := hkept _ ((agrees amountOrFlag _).1.1 hc)
    exact absurd heq (by decide)

end ShapeSchema.Ty
