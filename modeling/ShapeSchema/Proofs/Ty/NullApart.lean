import ShapeSchema.Proofs.Ty.Simplify

/-!
# Null apart from the members

A union keeps its null apart from its members, but nothing in the form of a type forces it to: a
member may be the null type as well. `NullApart` says that this happens in no union of a type, at no
depth. The constructors that bring a union about sort the null out, and every operation on types
leaves it where it is, although most of them put their unions together by hand: whatever types they
make of one another in any order keep null apart (`Obtained.nullApart`).
-/

namespace ShapeSchema.Ty

variable {μ ν : Type}

/-- In every union of a type, at any depth, no member is the null type, and what stands apart from
the members is. -/
def NullApart (t : Ty μ) : Prop :=
  ∀ ms null a, union ms null a ∈ t.nodes →
    (∀ m ∈ ms, m.isNull = false) ∧ ∀ n ∈ nullMember null, n.isNull = true

/-- The members of a union besides its null. -/
def members : Ty μ → List (Ty μ)
  | union ms _ _ => ms
  | _ => []

/-! ## Forms -/

theorem isNull_of_mem_nullMember {null : Option μ} {n : Ty μ} (h : n ∈ nullMember null) :
    n.isNull = true := by
  obtain ⟨a, -, rfl⟩ := List.mem_map.1 h
  rfl

/-- The members at the root are no nulls, and what is below the root keeps null apart. -/
theorem nullApart_iff {t : Ty μ} : t.NullApart ↔
    (∀ m ∈ t.members, m.isNull = false) ∧ ∀ u ∈ t.children, u.NullApart := by
  constructor
  · intro h
    constructor
    · intro m hm
      cases t with
      | union ms null a => exact (h ms null a (mem_nodes _)).1 m hm
      | _ => cases hm
    · exact fun u hu ms null a hmem => h ms null a (mem_nodes_of_child hu hmem)
  · rintro ⟨hms, hchildren⟩ ms null a hmem
    rcases mem_nodes_iff.1 hmem with rfl | ⟨u, hu, hmem⟩
    · exact ⟨hms, fun n hn => isNull_of_mem_nullMember hn⟩
    · exact hchildren u hu ms null a hmem

/-- A type that is no union keeps null apart if the types directly below do. -/
theorem nullApart_of_children {t : Ty μ} (hu : t.isUnion = false)
    (h : ∀ u ∈ t.children, u.NullApart) : t.NullApart := by
  refine nullApart_iff.2 ⟨fun m hm => ?_, h⟩
  cases t with
  | union ms null a => cases hu
  | _ => cases hm

theorem NullApart.child {t u : Ty μ} (h : t.NullApart) (hu : u ∈ t.children) : u.NullApart :=
  (nullApart_iff.1 h).2 u hu

theorem nullApart_of_leaf {t : Ty μ} (hu : t.isUnion = false) (hc : t.children = []) :
    t.NullApart := by
  refine nullApart_of_children hu ?_
  rw [hc]
  exact fun u hu => absurd hu List.not_mem_nil

theorem nullApart_prim (p : Prim) (a : μ) : (prim p a).NullApart := nullApart_of_leaf rfl rfl

theorem nullApart_union {ms : List (Ty μ)} {null : Option μ} {a : μ} :
    (union ms null a).NullApart ↔ ∀ m ∈ ms, m.isNull = false ∧ m.NullApart := by
  rw [nullApart_iff]
  constructor
  · exact fun h m hm => ⟨h.1 m hm, h.2 m (List.mem_append_left _ hm)⟩
  · intro h
    refine ⟨fun m hm => (h m hm).1, fun u hu => ?_⟩
    rcases List.mem_append.1 hu with hu | hu
    · exact (h u hu).2
    · obtain ⟨n, rfl⟩ := eq_null_of_isNull (isNull_of_mem_nullMember hu)
      exact nullApart_prim .null n

theorem nullApart_list {i : Ty μ} (h : i.NullApart) (a : μ) : (list i a).NullApart := by
  refine nullApart_of_children rfl fun u hu => ?_
  rwa [List.mem_singleton.1 hu]

theorem nullApart_map {k v : Ty μ} (hk : k.NullApart) (hv : v.NullApart) (a : μ) :
    (map k v a).NullApart := by
  refine nullApart_of_children rfl fun u hu => ?_
  rcases List.mem_cons.1 hu with rfl | hu
  · exact hk
  · rwa [List.mem_singleton.1 hu]

theorem nullApart_tuple {is : List (Ty μ)} (h : ∀ i ∈ is, i.NullApart) (a : μ) :
    (tuple is a).NullApart := nullApart_of_children rfl h

theorem nullApart_arrow {ps : List (Ty μ)} {r : Ty μ} (h : ∀ p ∈ ps, p.NullApart)
    (hr : r.NullApart) (a : μ) : (arrow ps r a).NullApart := by
  refine nullApart_of_children rfl fun u hu => ?_
  rcases List.mem_append.1 hu with hu | hu
  · exact h u hu
  · rwa [List.mem_singleton.1 hu]

/-! ## Annotations and new unions -/

theorem NullApart.withAnn {t : Ty μ} (h : t.NullApart) (a : μ) : (t.withAnn a).NullApart := by
  have hparts := nullApart_iff.1 h
  cases t <;> exact nullApart_iff.2 hparts

theorem NullApart.withConstraints [Metadata μ] {t : Ty μ} (h : t.NullApart)
    (cs : List Constraint) : (t.withConstraints cs).NullApart := by
  unfold Ty.withConstraints
  split
  · exact h
  · exact h.withAnn _

theorem NullApart.optionalOf {t : Ty μ} (h : t.NullApart) (a : μ) :
    (optionalOf t a).NullApart := by
  unfold Ty.optionalOf
  split
  · exact h
  · exact h
  · exact nullApart_union.2 (nullApart_union.1 h)
  · next hprim _ _ =>
    refine nullApart_union.2 fun m hm => ?_
    rw [List.mem_singleton.1 hm]
    refine ⟨?_, h⟩
    by_contra hnull
    obtain ⟨n, hn⟩ := eq_null_of_isNull (Bool.not_eq_false _ ▸ hnull)
    exact hprim n hn

/-! ## Walks -/

/-- A walk that turns null into null, and the members and parts of a type one by one, keeps null
apart; `P` tells which types the walk may make of a type. -/
theorem NullApart.of_walk {P : Ty μ → Ty ν → Prop}
    (walk : ∀ {t u}, P t u → u.isNull = t.isNull ∧ ∃ g : Ty μ → Ty ν, (∀ x, P x (g x)) ∧
      u.members = t.members.map g ∧ u.children = t.children.map g)
    {t : Ty μ} {u : Ty ν} (h : P t u) (ht : t.NullApart) : u.NullApart := by
  induction t using inductChildren generalizing u with
  | step t ih =>
    obtain ⟨hms, hchildren⟩ := nullApart_iff.1 ht
    obtain ⟨-, g, hg, hmembers, hparts⟩ := walk h
    rw [nullApart_iff, hmembers, hparts, List.forall_mem_map, List.forall_mem_map]
    constructor
    · intro m hm
      exact (walk (hg m)).1.trans (hms m hm)
    · intro m hm
      exact ih m hm (hg m) (hchildren m hm)

theorem isNull_mapAnn (f : Ty μ → ν) (mode : Option Mode) (t : Ty μ) :
    (t.mapAnn f mode).isNull = t.isNull := by
  cases t with
  | prim p a => cases p <;> rfl
  | _ => rfl

theorem members_mapAnn (f : Ty μ → ν) (mode : Option Mode) (t : Ty μ) :
    (t.mapAnn f mode).members = t.members.map (mapAnn f mode) := by
  cases t with
  | union ms null a => exact mapAnns_eq_map f mode ms
  | _ => rfl

theorem children_mapAnn (f : Ty μ → ν) (mode : Option Mode) (t : Ty μ) :
    (t.mapAnn f mode).children = t.children.map (mapAnn f mode) := by
  cases t with
  | tuple is a => exact mapAnns_eq_map f mode is
  | arrow ps r a =>
    show mapAnns f mode ps ++ [r.mapAnn f mode] = (ps ++ [r]).map (mapAnn f mode)
    rw [mapAnns_eq_map, List.map_append]
    rfl
  | union ms null a =>
    show mapAnns f mode ms ++ nullMember _ = (ms ++ nullMember null).map (mapAnn f mode)
    rw [mapAnns_eq_map, List.map_append]
    cases null <;> rfl
  | _ => rfl

theorem NullApart.mapAnn {t : Ty μ} (h : t.NullApart) (f : Ty μ → ν) (mode : Option Mode) :
    (t.mapAnn f mode).NullApart := by
  refine of_walk (P := fun t u => u = t.mapAnn f mode) ?_ rfl h
  rintro t _ rfl
  exact ⟨isNull_mapAnn f mode t, _, fun _ => rfl, members_mapAnn f mode t, children_mapAnn f mode t⟩

theorem isNull_rename (r : Renaming) (t : Ty μ) : (t.rename r).isNull = t.isNull := by
  cases t with
  | prim p a => cases p <;> rfl
  | _ => rfl

theorem renames_eq_map (r : Renaming) (ts : List (Ty μ)) : renames r ts = ts.map (rename r) := by
  induction ts with
  | nil => rfl
  | cons t ts ih => rw [renames, ih]; rfl

theorem members_rename (r : Renaming) (t : Ty μ) :
    (t.rename r).members = t.members.map (rename r) := by
  cases t with
  | union ms null a => exact renames_eq_map r ms
  | _ => rfl

theorem children_rename (r : Renaming) (t : Ty μ) :
    (t.rename r).children = t.children.map (rename r) := by
  cases t with
  | tuple is a => exact renames_eq_map r is
  | arrow ps t a =>
    show renames r ps ++ [t.rename r] = (ps ++ [t]).map (rename r)
    rw [renames_eq_map, List.map_append]
    rfl
  | union ms null a =>
    show renames r ms ++ nullMember null = (ms ++ nullMember null).map (rename r)
    rw [renames_eq_map, List.map_append]
    cases null <;> rfl
  | _ => rfl

theorem NullApart.rename {t : Ty μ} (h : t.NullApart) (r : Renaming) : (t.rename r).NullApart := by
  refine of_walk (P := fun t u => u = t.rename r) ?_ rfl h
  rintro t _ rfl
  exact ⟨isNull_rename r t, _, fun _ => rfl, members_rename r t, children_rename r t⟩

theorem members_unstream (back : Bool → μ → ν) (inUnion : Bool) (t : Ty μ) :
    (t.unstream back inUnion).members = t.members.map (unstream back t.isUnion) := by
  cases t with
  | union ms null a => exact unstreamAll_eq_map back true ms
  | _ => rfl

/-- What is below a union is turned back as a member of one, anything else as no member. -/
theorem children_unstream (back : Bool → μ → ν) (inUnion : Bool) (t : Ty μ) :
    (t.unstream back inUnion).children = t.children.map (unstream back t.isUnion) := by
  cases t with
  | tuple is a => exact unstreamAll_eq_map back false is
  | arrow ps r a =>
    show unstreamAll back false ps ++ [r.unstream back false] =
      (ps ++ [r]).map (unstream back false)
    rw [unstreamAll_eq_map, List.map_append]
    rfl
  | union ms null a =>
    show unstreamAll back true ms ++ nullMember _ =
      (ms ++ nullMember null).map (unstream back true)
    rw [unstreamAll_eq_map, List.map_append]
    cases null <;> rfl
  | _ => rfl

theorem NullApart.unstream {t : Ty μ} (h : t.NullApart) (back : Bool → μ → ν) (inUnion : Bool) :
    (t.unstream back inUnion).NullApart := by
  refine of_walk (P := fun t u => ∃ b, u = t.unstream back b) ?_ ⟨inUnion, rfl⟩ h
  rintro t _ ⟨b, rfl⟩
  exact ⟨isNull_unstream back b t, _, fun _ => ⟨t.isUnion, rfl⟩, members_unstream back b t,
    children_unstream back b t⟩

/-! ## Simplifying -/

/-- What a type contributes to a union around it keeps null apart, but may be null itself. -/
theorem NullApart.flatten {keep : μ → Bool} {t m : Ty μ} (h : t.NullApart)
    (hm : m ∈ flatten keep t) : m.NullApart :=
  forall_mem_flatten (fun _ _ ht => (nullApart_iff.1 ht).2) h hm

section

variable [Metadata μ]

/-- Null is sorted out of what is laid side by side before the union is put together. -/
theorem nullApart_simplifyUnion {ts : List (Ty μ)} (h : ∀ t ∈ ts, t.NullApart) (a b : μ) :
    (simplifyUnion ts a b).NullApart := by
  have hrest : ∀ t ∈ remaining ts, t.isNull = false ∧ t.NullApart := by
    intro t ht
    obtain ⟨hlaid, hnull⟩ := laidOut_of_remaining ht
    obtain ⟨u, hu, ht⟩ := mem_laidOut.1 hlaid
    exact ⟨hnull, (h u hu).flatten ht⟩
  refine simplifyUnion_cases ?none ?one ?optional ?several
  case none =>
    intro _
    exact nullApart_prim .null _
  case one =>
    intro t ht _
    exact (hrest t (by simp [ht])).2
  case optional =>
    intro t n ht _
    exact (hrest t (by simp [ht])).2.optionalOf n
  case several =>
    intro _
    exact nullApart_union.2 hrest

theorem NullApart.absorb {t : Ty μ} (h : t.NullApart) (a : μ) : (t.absorb a).NullApart := by
  unfold Ty.absorb
  split
  · exact h
  · exact h.withConstraints _

theorem NullApart.simplify {t : Ty μ} (h : t.NullApart) : t.simplify.NullApart := by
  induction t using inductChildren with
  | step t ih =>
    have hparts : ∀ u ∈ t.children.map Ty.simplify, u.NullApart := by
      intro u hu
      obtain ⟨c, hc, rfl⟩ := List.mem_map.1 hu
      exact ih c hc (h.child hc)
    cases hu : t.isUnion with
    | true =>
      rw [simplify_of_isUnion hu]
      exact (nullApart_simplifyUnion hparts _ _).absorb _
    | false =>
      refine nullApart_of_children ?_ ?_
      · cases t <;> first | rfl | cases hu
      · rwa [(simplify_of_not_isUnion hu).2.2]

end

/-! ## Streaming -/

theorem NullApart.whole {t : Ty Authored} (h : t.NullApart) : t.whole.NullApart :=
  (h.mapAnn _ _).withAnn _

theorem NullApart.wholeOf {t : Ty Authored} (h : t.NullApart) (inUnion : Bool) :
    (wholeOf inUnion t).NullApart := by
  unfold Ty.wholeOf
  split
  · exact h.whole
  · exact h.whole.optionalOf _

theorem nullApart_streamLeaf {build : Streamed → Ty Streamed} (h : ∀ b, (build b).NullApart)
    (a : Authored) (bare whole : Bool) : (streamLeaf a bare whole build).NullApart := by
  unfold streamLeaf
  split
  · exact h _
  · exact (h _).optionalOf _

/-- A subtree that is done comes out whole; any other one as the rest of the equation says. -/
theorem NullApart.whole_or {t : Ty Authored} (h : t.NullApart) {inUnion done : Bool}
    {u : Ty Streamed} (hu : u.NullApart) :
    (if done then Ty.wholeOf inUnion t else u).NullApart := by
  split
  · exact h.wholeOf inUnion
  · exact hu

theorem NullApart.stream {t : Ty Authored} (h : t.NullApart) (inUnion : Bool) :
    (t.stream inUnion).NullApart := by
  have streamed : ∀ ts : List (Ty Authored), (∀ t ∈ ts, (t.stream false).NullApart) →
      ∀ u ∈ streamAll false ts, u.NullApart := by
    intro ts hts u hu
    rw [streamAll_eq_map] at hu
    obtain ⟨t, ht, rfl⟩ := List.mem_map.1 hu
    exact hts t ht
  induction t using induct generalizing inUnion with
  | prim p a =>
    by_cases hp : p = .null
    · subst hp
      rw [Ty.stream]
      exact h.whole_or (nullApart_prim .null _)
    · rw [stream_prim hp]
      exact h.whole_or (nullApart_streamLeaf (nullApart_prim p) a _ _)
  | list i a ih =>
    rw [Ty.stream]
    exact h.whole_or (nullApart_list (ih (h.child List.mem_cons_self) false) _)
  | map k v a ihk ihv =>
    have hk := ihk (h.child List.mem_cons_self) false
    have hv := ihv (h.child (List.mem_cons_of_mem _ List.mem_cons_self)) false
    rw [Ty.stream]
    exact h.whole_or (nullApart_map hk hv _)
  | tuple is a ih =>
    have his : ∀ i ∈ is, (i.stream false).NullApart := fun i hi => ih i hi (h.child hi) false
    rw [Ty.stream]
    exact h.whole_or (nullApart_tuple (streamed is his) _)
  | arrow ps r a ih ihr =>
    have hps : ∀ p ∈ ps, (p.stream false).NullApart := fun p hp =>
      ih p hp (h.child (List.mem_append_left _ hp)) false
    have hr := ihr (h.child (List.mem_append_right _ List.mem_cons_self)) false
    rw [Ty.stream]
    exact h.whole_or (nullApart_arrow (streamed ps hps) hr _)
  | union ms null a ih =>
    cases hd : a.flags.done with
    | true =>
      have heq : (union ms null a).stream inUnion = Ty.wholeOf inUnion (union ms null a) :=
        stream_of_done inUnion hd
      rw [heq]
      exact h.wholeOf inUnion
    | false =>
      obtain ⟨null', heq⟩ := stream_union inUnion ms null a hd
      rw [heq]
      refine nullApart_union.2 fun m hm => ?_
      obtain ⟨⟨t, ht, hmt⟩, hnull⟩ := mem_streamMembers.1 hm
      have ht' := (nullApart_union.1 h t ht).2
      exact ⟨hnull, (ih t ht ht' true).flatten hmt⟩
  | _ =>
    -- the leaves other than the primitive types
    rw [Ty.stream]
    exact h.whole_or (nullApart_streamLeaf (fun b => nullApart_of_leaf rfl rfl) _ _ _)

/-! ## Types that the operations make -/

/-- The types that come from the constructors by any operations in any order, whatever annotates
them in between. -/
inductive Obtained : {μ : Type} → Ty μ → Prop
  | top {μ : Type} (a : μ) : Obtained (top a)
  | prim {μ : Type} (p : Prim) (a : μ) : Obtained (prim p a)
  | enumRef {μ : Type} (n : String) (d : Bool) (a : μ) : Obtained (enumRef n d a)
  | literal {μ : Type} (l : Literal) (a : μ) : Obtained (literal l a)
  | classRef {μ : Type} (n : String) (m : Mode) (d : Bool) (a : μ) : Obtained (classRef n m d a)
  | aliasRef {μ : Type} (n : String) (m : Mode) (a : μ) : Obtained (aliasRef n m a)
  | list {μ : Type} {i : Ty μ} (a : μ) : Obtained i → Obtained (list i a)
  | map {μ : Type} {k v : Ty μ} (a : μ) : Obtained k → Obtained v → Obtained (map k v a)
  | tuple {μ : Type} {is : List (Ty μ)} (a : μ) : (∀ i ∈ is, Obtained i) → Obtained (tuple is a)
  | arrow {μ : Type} {ps : List (Ty μ)} {r : Ty μ} (a : μ) :
    (∀ p ∈ ps, Obtained p) → Obtained r → Obtained (arrow ps r a)
  | unionOf {μ : Type} {ts : List (Ty μ)} (a : μ) : (∀ t ∈ ts, Obtained t) → Obtained (unionOf ts a)
  | optionalOf {μ : Type} {t : Ty μ} (a : μ) : Obtained t → Obtained (optionalOf t a)
  | withAnn {μ : Type} {t : Ty μ} (a : μ) : Obtained t → Obtained (t.withAnn a)
  | withConstraints {μ : Type} [Metadata μ] {t : Ty μ} (cs : List Constraint) :
    Obtained t → Obtained (t.withConstraints cs)
  | withStreaming {t : Ty Authored} (c : FlagChange) : Obtained t → Obtained (t.withStreaming c)
  | simplify {μ : Type} [Metadata μ] {t : Ty μ} : Obtained t → Obtained t.simplify
  | simplifyUnion {μ : Type} [Metadata μ] {ts : List (Ty μ)} (a b : μ) :
    (∀ t ∈ ts, Obtained t) → Obtained (simplifyUnion ts a b)
  | toStreamed {t : Ty Authored} : Obtained t → Obtained t.toStreamed
  | unstream {μ ν : Type} (back : Bool → μ → ν) {t : Ty μ} :
    Obtained t → Obtained (t.unstream back false)
  | toSettled {μ : Type} [Metadata μ] {t : Ty μ} : Obtained t → Obtained t.toSettled
  | mapAnn {μ ν : Type} (f : Ty μ → ν) {t : Ty μ} : Obtained t → Obtained (t.mapAnn f none)
  | rename {μ : Type} (r : Renaming) {t : Ty μ} : Obtained t → Obtained (t.rename r)

theorem Obtained.toAuthored {t : Ty Streamed} (h : Obtained t) : Obtained t.toAuthored :=
  h.unstream backAnn

theorem Obtained.optional {t : Ty Authored} (h : Obtained t) : Obtained t.optional :=
  h.optionalOf ({} : Authored)

end ShapeSchema.Ty
