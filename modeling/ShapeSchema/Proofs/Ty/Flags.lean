import ShapeSchema.Proofs.Ty.Lasting

/-!
# Flags of streaming types

What a consumer reads off the nodes of a streaming type. A reference is to the complete definition
exactly below what is done (`modes_toStreamed`), so the flag `done` alone tells which definition to
look up. The flag `state` stands at the root if it stood at the root of the authored type
(`stage_toStreamed`), with one exception: a subtree that arrives whole and is wrapped to allow null
keeps the flag to itself, and the wrapper goes without.

Both follow from what a node streams to, of which there are five kinds (`stream_induct`).
-/

namespace ShapeSchema.Ty

variable {μ ν : Type}

/-! ## Kinds of nodes -/

/-- A type without parts that is not null. -/
def hasLeafForm : Ty μ → Bool
  | prim p _ => p != .null
  | list _ _ | map _ _ _ | tuple _ _ | arrow _ _ _ | union _ _ _ => false
  | _ => true

/-- Every type is null, a leaf, a container or a union. -/
@[elab_as_elim]
theorem kindCases {P : Ty μ → Prop} (null : ∀ a, P (prim .null a))
    (leaf : ∀ t, t.hasLeafForm = true → P t) (container : ∀ t, t.isContainer = true → P t)
    (union : ∀ ms null a, P (union ms null a)) (t : Ty μ) : P t := by
  cases t with
  | prim p a =>
    by_cases hp : p = .null
    · rw [hp]
      exact null a
    · exact leaf _ (bne_iff_ne.2 hp)
  | list i a => exact container _ rfl
  | map k v a => exact container _ rfl
  | tuple is a => exact container _ rfl
  | arrow ps r a => exact container _ rfl
  | union ms null a => exact union ms null a
  | _ => exact leaf _ rfl

theorem isUnion_of_hasLeafForm {t : Ty μ} (h : t.hasLeafForm = true) : t.isUnion = false := by
  cases t <;> first | rfl | cases h

theorem isNull_of_hasLeafForm {t : Ty μ} (h : t.hasLeafForm = true) : t.isNull = false := by
  cases t with
  | prim p a => cases p <;> first | rfl | cases h
  | _ => rfl

theorem children_of_hasLeafForm {t : Ty μ} (h : t.hasLeafForm = true) : t.children = [] := by
  cases t <;> first | rfl | cases h

theorem isUnion_mapAnn (f : Ty μ → ν) (mode : Option Mode) (t : Ty μ) :
    (t.mapAnn f mode).isUnion = t.isUnion := by
  cases t <;> rfl

theorem ann_mapAnn (f : Ty μ → ν) (mode : Option Mode) (t : Ty μ) :
    (t.mapAnn f mode).ann = f t := by
  cases t <;> rfl

/-! ## What a node streams to -/

/-- Leaves whose values have no parts to wait for. -/
def arrivesWhole : Ty Authored → Bool
  | prim p _ => p != .string
  | enumRef _ _ _ | literal _ _ => true
  | _ => false

/-- A leaf with another annotation, for partial values. -/
def partialLeaf (t : Ty Authored) (a : Streamed) : Ty Streamed :=
  t.mapAnn (fun _ => a) (some .partialValue)

theorem stream_of_hasLeafForm (b : Bool) {t : Ty Authored} (hd : t.ann.flags.done = false)
    (h : t.hasLeafForm = true) :
    t.stream b = streamLeaf t.ann (b || t.ann.flags.needed) t.arrivesWhole t.partialLeaf := by
  cases t with
  | prim p a =>
    have hopen : ¬ a.flags.done = true := Bool.eq_false_iff.1 hd
    rw [stream_prim (bne_iff_ne.1 h), if_neg hopen]
    rfl
  | list i a => cases h
  | map k v a => cases h
  | tuple is a => cases h
  | arrow ps r a => cases h
  | union ms null a => cases h
  | _ =>
    rw [stream]
    exact if_neg (Bool.eq_false_iff.1 hd)

/-- Lists, maps, tuples and arrows pass their flags on and stream their parts. -/
theorem stream_of_isContainer (b : Bool) {t : Ty Authored} (hd : t.ann.flags.done = false)
    (h : t.isContainer = true) :
    (t.stream b).isContainer = true ∧ (t.stream b).ann = passOn t.ann ∧
      (t.stream b).children = t.children.map (stream false) := by
  cases t with
  | list i a =>
    have hopen : ¬ a.flags.done = true := Bool.eq_false_iff.1 hd
    rw [stream, if_neg hopen]
    exact ⟨rfl, rfl, rfl⟩
  | map k v a =>
    have hopen : ¬ a.flags.done = true := Bool.eq_false_iff.1 hd
    rw [stream, if_neg hopen]
    exact ⟨rfl, rfl, rfl⟩
  | tuple is a =>
    have hopen : ¬ a.flags.done = true := Bool.eq_false_iff.1 hd
    rw [stream, if_neg hopen]
    exact ⟨rfl, rfl, streamAll_eq_map false is⟩
  | arrow ps r a =>
    have hopen : ¬ a.flags.done = true := Bool.eq_false_iff.1 hd
    rw [stream, if_neg hopen]
    refine ⟨rfl, rfl, ?_⟩
    show streamAll false ps ++ [r.stream false] = (ps ++ [r]).map (stream false)
    rw [streamAll_eq_map, List.map_append]
    rfl
  | _ => cases h

/-- Induction along `stream`: what is done comes out whole, and anything else by its kind. -/
theorem stream_induct {P : Ty Authored → Bool → Ty Streamed → Prop}
    (whole : ∀ t b, t.ann.flags.done = true → P t b (wholeOf b t))
    (null : ∀ a b, a.flags.done = false → P (prim .null a) b (prim .null (passOn a)))
    (leaf : ∀ t b, t.ann.flags.done = false → t.hasLeafForm = true →
      P t b (streamLeaf t.ann (b || t.ann.flags.needed) t.arrivesWhole t.partialLeaf))
    (container : ∀ t b u, t.ann.flags.done = false → t.isContainer = true → u.isContainer = true →
      u.ann = passOn t.ann → u.children = t.children.map (stream false) →
      (∀ v ∈ t.children, P v false (v.stream false)) → P t b u)
    (union : ∀ ms null a b, a.flags.done = false → (∀ m ∈ ms, P m true (m.stream true)) →
      P (union ms null a) b
        (union (streamMembers ms) (streamedNull ms null (b || a.flags.needed)) (passOn a)))
    (t : Ty Authored) (b : Bool) : P t b (t.stream b) := by
  induction t using inductChildren generalizing b with
  | step t ih =>
    cases hd : t.ann.flags.done with
    | true =>
      rw [stream_of_done b hd]
      exact whole t b hd
    | false =>
      cases t using kindCases with
      | null a =>
        have hopen : ¬ a.flags.done = true := Bool.eq_false_iff.1 hd
        rw [stream, if_neg hopen]
        exact null a b hd
      | leaf t hleaf =>
        rw [stream_of_hasLeafForm b hd hleaf]
        exact leaf t b hd hleaf
      | container t hcontainer =>
        obtain ⟨hu, hann, hchildren⟩ := stream_of_isContainer b hd hcontainer
        exact container t b _ hd hcontainer hu hann hchildren fun v hv => ih v hv false
      | union ms n a =>
        have hopen : a.flags.done = false := hd
        rw [stream_union_eq hopen]
        exact union ms n a b hd fun m hm => ih m (List.mem_append_left _ hm) true

/-! ## Branches -/

/-- The nodes from the root of a type down to one of its nodes, both included. -/
inductive Branch : Ty μ → List (Ty μ) → Ty μ → Prop
  | root {t : Ty μ} : Branch t [t] t
  | down {t u v : Ty μ} {path : List (Ty μ)} :
    v ∈ t.children → Branch v path u → Branch t (t :: path) u

/-- Branches lead to every node, and to nothing else. -/
theorem mem_nodes_iff_branch {t u : Ty μ} : u ∈ t.nodes ↔ ∃ path, Branch t path u := by
  constructor
  · intro h
    induction t using inductChildren with
    | step t ih =>
      rcases mem_nodes_iff.1 h with rfl | ⟨v, hv, hu⟩
      · exact ⟨_, .root⟩
      · obtain ⟨path, hpath⟩ := ih v hv hu
        exact ⟨_, .down hv hpath⟩
  · rintro ⟨path, h⟩
    induction h with
    | root => exact mem_nodes _
    | down hv _ ih => exact mem_nodes_of_child hv ih

/-! ## Modes -/

/-- The mode of a reference to a class or an alias. -/
def mode? : Ty μ → Option Mode
  | classRef _ m _ _ => some m
  | aliasRef _ m _ => some m
  | _ => none

/-- A type's references are complete exactly where the type or something below it is done; `within`
tells that everything stands below something that is. -/
def ModesFollow (within : Bool) (t : Ty Streamed) : Prop :=
  ∀ path u m, Branch t path u → u.mode? = some m →
    (m = .complete ↔ within = true ∨ ∃ w ∈ path, w.ann.done = true)

section

variable {t : Ty Streamed} {within : Bool}

theorem modesFollow_iff : t.ModesFollow within ↔
    (∀ m, t.mode? = some m → (m = .complete ↔ (within || t.ann.done) = true)) ∧
      ∀ v ∈ t.children, v.ModesFollow (within || t.ann.done) := by
  have hpath : ∀ path : List (Ty Streamed), (within = true ∨ ∃ w ∈ t :: path, w.ann.done = true) ↔
      ((within || t.ann.done) = true ∨ ∃ w ∈ path, w.ann.done = true) := by
    intro path
    rw [List.exists_mem_cons_iff, Bool.or_eq_true, or_assoc]
  constructor
  · intro h
    constructor
    · intro m hm
      rw [h [t] t m .root hm, hpath]
      simp
    · intro v hv path u m hu hm
      rw [← hpath]
      exact h (t :: path) u m (.down hv hu) hm
  · rintro ⟨hroot, hchildren⟩ path u m hu hm
    cases hu with
    | root =>
      rw [hroot m hm, hpath]
      simp
    | down hv hu =>
      rw [hpath]
      exact hchildren _ hv _ u m hu hm

theorem modesFollow_of_plain (hm : t.mode? = none)
    (h : ∀ v ∈ t.children, v.ModesFollow (within || t.ann.done)) : t.ModesFollow within := by
  refine modesFollow_iff.2 ⟨fun m hm' => ?_, h⟩
  rw [hm] at hm'
  cases hm'

theorem modesFollow_null (within : Bool) (n : Streamed) : (prim .null n).ModesFollow within :=
  modesFollow_of_plain rfl fun _ hv => absurd hv List.not_mem_nil

theorem modesFollow_union {ms : List (Ty Streamed)} {null : Option Streamed} {a : Streamed} :
    (union ms null a).ModesFollow within ↔ ∀ m ∈ ms, m.ModesFollow (within || a.done) := by
  constructor
  · exact fun h m hm => (modesFollow_iff.1 h).2 m (List.mem_append_left _ hm)
  · intro h
    refine modesFollow_of_plain rfl fun v hv => ?_
    rcases List.mem_append.1 hv with hv | hv
    · exact h v hv
    · obtain ⟨n, rfl⟩ := eq_null_of_isNull (isNull_of_mem_nullMember hv)
      exact modesFollow_null _ n

/-- A union that is done would be kept apart. -/
theorem done_of_keepsApart {a : Streamed} (h : keepsApart a = false) : a.done = false := by
  simp only [keepsApart, Bool.or_eq_false_iff] at h
  exact h.1.2

/-- What a union takes over from a type stands below nothing that is done. -/
theorem ModesFollow.flatten {m : Ty Streamed} (h : t.ModesFollow false)
    (hm : m ∈ flatten keepsApart t) : m.ModesFollow false := by
  refine forall_mem_flatten (fun v hkeep hv => ?_) h hm
  have hchildren := (modesFollow_iff.1 hv).2
  rwa [Bool.false_or, done_of_keepsApart hkeep] at hchildren

theorem ModesFollow.optionalOf (h : t.ModesFollow false) {n : Streamed} (hn : n.done = false) :
    (optionalOf t n).ModesFollow false := by
  unfold Ty.optionalOf
  split
  · exact h
  · exact h
  · exact modesFollow_union.2 (modesFollow_union.1 h)
  · rw [modesFollow_union, hn]
    intro m hm
    rwa [List.mem_singleton.1 hm]

end

theorem mode?_mapAnn (f : Ty μ → ν) (mode : Mode) (t : Ty μ) :
    (t.mapAnn f (some mode)).mode? = t.mode?.map fun _ => mode := by
  cases t <;> rfl

/-- Below something that is done, complete references are right wherever they stand. -/
theorem modesFollow_complete (f : Ty μ → Streamed) (t : Ty μ) :
    (t.mapAnn f (some .complete)).ModesFollow true := by
  induction t using inductChildren with
  | step t ih =>
    rw [modesFollow_iff, mode?_mapAnn, children_mapAnn, List.forall_mem_map]
    constructor
    · intro m hm
      obtain ⟨_, -, rfl⟩ := Option.map_eq_some_iff.1 hm
      simp
    · exact ih

theorem modesFollow_whole (t : Ty Authored) (within : Bool) : t.whole.ModesFollow within := by
  have hdone : t.whole.ann.done = true := by rw [ann_whole]
  have hparts : t.whole.mode? = t.mode?.map (fun _ => .complete) ∧
      t.whole.children = (t.mapAnn keptAnn (some .complete)).children := by
    cases t <;> exact ⟨rfl, rfl⟩
  have hkept := modesFollow_complete keptAnn t
  rw [modesFollow_iff, hdone, Bool.or_true, hparts.1, hparts.2]
  constructor
  · intro m hm
    obtain ⟨_, -, rfl⟩ := Option.map_eq_some_iff.1 hm
    simp
  · exact (modesFollow_iff.1 hkept).2

theorem modesFollow_wholeOf (b : Bool) (t : Ty Authored) : (wholeOf b t).ModesFollow false := by
  unfold wholeOf
  split
  · exact modesFollow_whole t false
  · exact (modesFollow_whole t false).optionalOf rfl

/-- A leaf that is a reference is not done. -/
theorem modesFollow_partialLeaf {t : Ty Authored} (h : t.hasLeafForm = true) (cs : List Constraint)
    (state : Bool) : (t.partialLeaf ⟨cs, t.arrivesWhole, state⟩).ModesFollow false := by
  have hann : (t.partialLeaf ⟨cs, t.arrivesWhole, state⟩).ann.done = t.arrivesWhole := by
    unfold partialLeaf
    rw [ann_mapAnn]
  have hreference : ∀ m, t.mode? = some m → t.arrivesWhole = false := by
    intro m hm
    cases t <;> first | rfl | cases hm
  rw [modesFollow_iff, hann]
  unfold partialLeaf
  rw [mode?_mapAnn, children_mapAnn, children_of_hasLeafForm h]
  constructor
  · intro m hm
    obtain ⟨m', hm', rfl⟩ := Option.map_eq_some_iff.1 hm
    simp [hreference m' hm']
  · exact fun _ hv => absurd hv List.not_mem_nil

theorem modesFollow_stream (t : Ty Authored) (b : Bool) : (t.stream b).ModesFollow false := by
  refine stream_induct (P := fun _ _ u => u.ModesFollow false) ?whole ?null ?leaf ?container ?union
    t b
  case whole =>
    intro t b _
    exact modesFollow_wholeOf b t
  case null =>
    intro a b _
    exact modesFollow_null false _
  case leaf =>
    intro t b _ hleaf
    unfold streamLeaf
    split
    · exact modesFollow_partialLeaf hleaf _ _
    · exact (modesFollow_partialLeaf hleaf _ _).optionalOf rfl
  case container =>
    intro t b u _ _ hu hann hchildren ih
    have hmode : u.mode? = none := by cases u <;> first | rfl | cases hu
    refine modesFollow_of_plain hmode ?_
    rw [hann, hchildren, List.forall_mem_map]
    exact ih
  case union =>
    intro ms null a b _ ih
    refine modesFollow_union.2 fun m hm => ?_
    obtain ⟨⟨t, ht, hmt⟩, -⟩ := mem_streamMembers.1 hm
    exact (ih t ht).flatten hmt

/-- In a streaming type a reference is to the complete definition exactly if it or a node above it
is done, and to the partial one exactly if none of them is. -/
theorem modes_toStreamed {t : Ty Authored} {path : List (Ty Streamed)} {u : Ty Streamed} {m : Mode}
    (h : Branch t.toStreamed path u) (hm : u.mode? = some m) :
    (m = .complete ↔ ∃ w ∈ path, w.ann.done = true) ∧
      (m = .partialValue ↔ ∀ w ∈ path, w.ann.done = false) := by
  have hcomplete : m = .complete ↔ ∃ w ∈ path, w.ann.done = true := by
    have hfollow := modesFollow_stream t false path u m h hm
    rwa [or_iff_right Bool.false_ne_true] at hfollow
  refine ⟨hcomplete, ?_⟩
  have hpartial : m = .partialValue ↔ ¬ m = .complete := by cases m <;> simp
  rw [hpartial, hcomplete]
  push Not
  simp

/-- A class that arrives whole is read from complete values below its wrapper, an alias beside it
from partial ones. -/
theorem modes_tuple :
    (∃ path u, Branch (tuple [classRef "Post" .partialValue false ⟨[], { done := true }⟩,
        aliasRef "Thread" .complete {}] {} : Ty Authored).toStreamed path u ∧
      u.mode? = some .complete ∧ ∃ w ∈ path, w.ann.done = true) ∧
    ∃ path u, Branch (tuple [classRef "Post" .partialValue false ⟨[], { done := true }⟩,
        aliasRef "Thread" .complete {}] {} : Ty Authored).toStreamed path u ∧
      u.mode? = some .partialValue ∧ ∀ w ∈ path, w.ann.done = false := by
  have hpost : Branch (tuple [classRef "Post" .partialValue false ⟨[], { done := true }⟩,
      aliasRef "Thread" .complete {}] {} : Ty Authored).toStreamed _ _ :=
    .down List.mem_cons_self (.down List.mem_cons_self .root)
  have hthread : Branch (tuple [classRef "Post" .partialValue false ⟨[], { done := true }⟩,
      aliasRef "Thread" .complete {}] {} : Ty Authored).toStreamed _ _ :=
    .down (List.mem_cons_of_mem _ List.mem_cons_self) (.down List.mem_cons_self .root)
  exact ⟨⟨_, _, hpost, rfl, (modes_toStreamed hpost rfl).1.1 rfl⟩,
    ⟨_, _, hthread, rfl, (modes_toStreamed hthread rfl).2.1 rfl⟩⟩

/-! ## Completion state -/

/-- A subtree that arrives whole keeps its flags when it is wrapped to allow null. -/
def hidesState (t : Ty Authored) : Bool :=
  t.ann.flags.done && !t.ann.flags.needed && !t.isNull && !t.isUnion

theorem state_wholeOf {t : Ty Authored} (hd : t.ann.flags.done = true) :
    (wholeOf false t).ann.state = (t.ann.flags.state && !t.hidesState) := by
  unfold wholeOf hidesState
  rw [hd]
  cases hbare : t.ann.flags.needed || t.isNull with
  | true =>
    rw [Bool.false_or, if_pos hbare, ann_whole]
    rcases Bool.or_eq_true_iff.1 hbare with h | h <;> simp [h]
  | false =>
    obtain ⟨hneeded, hnull⟩ := Bool.or_eq_false_iff.1 hbare
    rw [Bool.false_or, if_neg (Bool.eq_false_iff.1 hbare)]
    cases hu : t.isUnion with
    | true =>
      -- a union gains a null and keeps its annotation
      cases t with
      | union ms null a => cases null <;> simp [whole, optionalOf, mapAnn, withAnn, ann]
      | _ => cases hu
    | false =>
      have hplain : t.whole.isUnion = false := by
        rw [← hu]
        cases t <;> rfl
      rw [optionalOf_of_plain hplain (by rw [isNull_whole, hnull]), hneeded, hnull]
      simp only [Bool.not_false, Bool.and_true, Bool.not_true, Bool.and_false]
      rfl

/-- The flag of a leaf stands at its wrapper if it is wrapped. -/
theorem state_streamLeaf {t : Ty Authored} (h : t.hasLeafForm = true) (bare : Bool) :
    (streamLeaf t.ann bare t.arrivesWhole t.partialLeaf).ann.state = t.ann.flags.state := by
  unfold streamLeaf
  split
  · unfold partialLeaf
    rw [ann_mapAnn]
  · have hu : (t.partialLeaf ⟨t.ann.constraints, t.arrivesWhole, false⟩).isUnion = false := by
      unfold partialLeaf
      rw [isUnion_mapAnn, isUnion_of_hasLeafForm h]
    have hn : (t.partialLeaf ⟨t.ann.constraints, t.arrivesWhole, false⟩).isNull = false := by
      unfold partialLeaf
      rw [isNull_mapAnn, isNull_of_hasLeafForm h]
    rw [optionalOf_of_plain hu hn]
    rfl

/-- The root of a streaming type carries the flag `state` if the root of the type does and nothing
hides it. -/
theorem state_toStreamed (t : Ty Authored) :
    t.toStreamed.ann.state = (t.ann.flags.state && !t.hidesState) := by
  have hopen (t : Ty Authored) (hd : t.ann.flags.done = false) :
      (t.ann.flags.state && !t.hidesState) = t.ann.flags.state := by simp [hidesState, hd]
  refine stream_induct
    (P := fun t b u => b = false → u.ann.state = (t.ann.flags.state && !t.hidesState))
    ?whole ?null ?leaf ?container ?union t false rfl
  case whole =>
    rintro t _ hd rfl
    exact state_wholeOf hd
  case null =>
    intro a b hd _
    exact (hopen (prim .null a) hd).symm
  case leaf =>
    intro t b hd hleaf _
    rw [hopen t hd]
    exact state_streamLeaf hleaf _
  case container =>
    intro t b u hd _ _ hann _ _ _
    rw [hopen t hd, hann]
    rfl
  case union =>
    intro ms null a b hd _ _
    exact (hopen (union ms null a) hd).symm

/-- A value is paired with its completion state if the root of the type asks for it, unless the type
arrives whole, is wrapped to allow null and hides the flag below the wrapper. -/
theorem stage_toStreamed {α : Type} (t : Ty Authored) (value : α) (c : Completion) :
    t.toStreamed.stage value c =
      if t.ann.flags.state && !t.hidesState then .staged value c else .plain value := by
  unfold stage
  rw [state_toStreamed]

/-- A done number that asks for its completion state, and may be missing, comes without it. -/
theorem stage_int_differs :
    (prim .int ⟨[], { done := true, state := true }⟩ : Ty Authored).ann.flags.state = true ∧
      (prim .int ⟨[], { done := true, state := true }⟩ : Ty Authored).toStreamed.stage "5"
        .incomplete = .plain "5" :=
  ⟨rfl, rfl⟩

end ShapeSchema.Ty
