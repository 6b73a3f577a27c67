import ShapeSchema.Proofs.Convert.Streamed
import ShapeSchema.Proofs.Ty.Flags

/-!
# Null in streaming types

Whether a type admits null does not depend on its annotations (`Schema.admitsNull_mapAnn`), nor on
how its unions are nested (`Schema.admitsNull_flatten`). Streaming therefore changes it only where
it makes a type optional: a needed type admits null afterwards if it did before, and of the others
all become optional except the containers that do not arrive whole
(`Schema.nullability_toStreamed`).
-/

namespace ShapeSchema

open Ty

variable {μ ν : Type}

/-- The types that admit null, among types of any annotation; what an alias stands for is an
authored type. -/
inductive Schema.AdmitsNull (s : Schema) : Ty μ → Prop
  | top {a : μ} : AdmitsNull s (.top a)
  | null {a : μ} : AdmitsNull s (.prim .null a)
  | aliasRef {name : String} {mode : Mode} {a : μ} {e : Ty Authored} :
      s.expand? name = some e → s.Admits .null e → AdmitsNull s (.aliasRef name mode a)
  | unionNull {ms : List (Ty μ)} {n a : μ} : AdmitsNull s (.union ms (some n) a)
  | unionMember {m : Ty μ} {ms : List (Ty μ)} {null : Option μ} {a : μ} :
      m ∈ ms → AdmitsNull s m → AdmitsNull s (.union ms null a)

namespace Schema

variable {s : Schema}

/-! ## Types that admit null -/

theorem admitsNull_union_iff {ms : List (Ty μ)} {null : Option μ} {a : μ} :
    s.AdmitsNull (.union ms null a) ↔ null.isSome = true ∨ ∃ m ∈ ms, s.AdmitsNull m := by
  constructor
  · intro h
    cases h with
    | unionNull => exact .inl rfl
    | unionMember hm h => exact .inr ⟨_, hm, h⟩
  · rintro (h | ⟨m, hm, h⟩)
    · obtain ⟨n, rfl⟩ := Option.isSome_iff_exists.1 h
      exact .unionNull
    · exact .unionMember hm h

theorem admitsNull_aliasRef_iff {name : String} {mode : Mode} {a : μ} :
    s.AdmitsNull (.aliasRef name mode a) ↔ ∃ e, s.expand? name = some e ∧ s.Admits .null e := by
  constructor
  · intro h
    cases h with
    | aliasRef he h => exact ⟨_, he, h⟩
  · rintro ⟨e, he, h⟩
    exact .aliasRef he h

theorem admitsNull_of_isNull {t : Ty μ} (h : t.isNull = true) : s.AdmitsNull t := by
  obtain ⟨n, rfl⟩ := eq_null_of_isNull h
  exact .null

theorem not_admitsNull_of_isContainer {t : Ty μ} (h : t.isContainer = true) :
    ¬ s.AdmitsNull t := by
  intro hnull
  cases hnull <;> cases h

/-- A null is taken at an authored type exactly if the type admits null. -/
theorem admitsNull_iff {t : Ty Authored} : s.AdmitsNull t ↔ s.Admits .null t := by
  constructor
  · intro h
    induction h with
    | top => exact .top
    | null => exact .prim rfl
    | aliasRef he h => exact .aliasRef he h
    | unionNull => exact .unionNull
    | unionMember hm _ ih => exact .unionMember hm ih
  · intro h
    induction t using induct with
    | top a => exact .top
    | prim p a =>
      cases h with
      | prim h => cases p <;> first | exact .null | cases h
    | literal l a =>
      cases h with
      | literal h => cases l <;> cases h
    | enumRef n d a =>
      cases h with
      | enumRef _ h _ => cases h
    | classRef n m d a =>
      cases h with
      | classRef _ h _ => cases h
    | list i a =>
      cases h with
      | list h _ => cases h
    | map k v a =>
      cases h with
      | map h => cases h
    | tuple is a =>
      cases h with
      | tuple h _ _ => cases h
    | arrow ps r a => cases h
    | aliasRef n m a =>
      cases h with
      | aliasRef he h => exact .aliasRef he h
    | union ms null a ih =>
      cases h with
      | unionNull => exact .unionNull
      | unionMember hm h => exact .unionMember hm (ih _ hm h)

/-- The types that admit null are those that accept it as a field that is missing. -/
theorem acceptsNull_iff_admitsNull (hg : s.Guarded) (t : Ty Authored) :
    s.acceptsNull t = true ↔ s.AdmitsNull t := by
  rw [acceptsNull_iff hg, admitsNull_iff]

/-- The members of a union may be rebuilt one by one. -/
theorem admitsNull_rebuilt {f : Ty μ → Ty ν} {ms : List (Ty μ)} {null : Option μ}
    {null' : Option ν} {a : μ} {b : ν} (hnull : null'.isSome = null.isSome)
    (h : ∀ m ∈ ms, s.AdmitsNull (f m) ↔ s.AdmitsNull m) :
    s.AdmitsNull (.union (ms.map f) null' b) ↔ s.AdmitsNull (.union ms null a) := by
  rw [admitsNull_union_iff, admitsNull_union_iff, hnull]
  refine or_congr_right ⟨?_, ?_⟩
  · rintro ⟨_, hm, hadmits⟩
    obtain ⟨m, hmem, rfl⟩ := List.mem_map.1 hm
    exact ⟨m, hmem, (h m hmem).1 hadmits⟩
  · rintro ⟨m, hm, hadmits⟩
    exact ⟨f m, List.mem_map_of_mem hm, (h m hm).2 hadmits⟩

/-- Annotations and modes do not matter. -/
theorem admitsNull_mapAnn (f : Ty μ → ν) (mode : Option Mode) (t : Ty μ) :
    s.AdmitsNull (t.mapAnn f mode) ↔ s.AdmitsNull t := by
  induction t using induct with
  | top a => exact iff_of_true .top .top
  | prim p a =>
    cases p with
    | null => exact iff_of_true .null .null
    | _ => constructor <;> (intro h; cases h)
  | aliasRef n m a => rw [mapAnn, admitsNull_aliasRef_iff, admitsNull_aliasRef_iff]
  | union ms null a ih =>
    rw [mapAnn, mapAnns_eq_map]
    exact admitsNull_rebuilt Option.isSome_map ih
  | _ => constructor <;> (intro h; cases h)

/-- Turning a streaming type back changes annotations only. -/
theorem admitsNull_unstream (back : Bool → μ → ν) (inUnion : Bool) (t : Ty μ) :
    s.AdmitsNull (t.unstream back inUnion) ↔ s.AdmitsNull t := by
  induction t using induct generalizing inUnion with
  | top a => exact iff_of_true .top .top
  | prim p a =>
    cases p with
    | null => exact iff_of_true .null .null
    | _ => constructor <;> (intro h; cases h)
  | aliasRef n m a => rw [unstream, admitsNull_aliasRef_iff, admitsNull_aliasRef_iff]
  | union ms null a ih =>
    rw [unstream, unstreamAll_eq_map]
    exact admitsNull_rebuilt Option.isSome_map fun m hm => ih m hm true
  | _ => constructor <;> (intro h; cases h)

theorem AdmitsNull.withAnn {t : Ty μ} (h : s.AdmitsNull t) (a : μ) : s.AdmitsNull (t.withAnn a) := by
  cases h with
  | top => exact .top
  | null => exact .null
  | aliasRef he h => exact .aliasRef he h
  | unionNull => exact .unionNull
  | unionMember hm h => exact .unionMember hm h

theorem admitsNull_withAnn (t : Ty μ) (a : μ) : s.AdmitsNull (t.withAnn a) ↔ s.AdmitsNull t := by
  refine ⟨fun h => ?_, fun h => h.withAnn a⟩
  have hback := h.withAnn t.ann
  rwa [Coercer.withAnn_withAnn, withAnn_ann] at hback

theorem admitsNull_whole (t : Ty Authored) : s.AdmitsNull t.whole ↔ s.AdmitsNull t :=
  (admitsNull_withAnn _ _).trans (admitsNull_mapAnn _ _ t)

/-! ## Unions -/

/-- A type admits null exactly if one of the types that it contributes to a union does. -/
theorem admitsNull_flatten (keep : μ → Bool) (t : Ty μ) :
    (∃ m ∈ flatten keep t, s.AdmitsNull m) ↔ s.AdmitsNull t := by
  have one (t : Ty μ) : (∃ m ∈ [t], s.AdmitsNull m) ↔ s.AdmitsNull t := by simp
  induction t using induct with
  | union ms null a ih =>
    rw [flatten]
    split
    · exact one _
    rw [flattenAll_eq_flatMap, admitsNull_union_iff]
    constructor
    · rintro ⟨m, hm, h⟩
      rcases List.mem_append.1 hm with hm | hm
      · obtain ⟨u, hu, hm⟩ := List.mem_flatMap.1 hm
        exact .inr ⟨u, hu, (ih u hu).1 ⟨m, hm, h⟩⟩
      · obtain ⟨n, hn, -⟩ := List.mem_map.1 hm
        exact .inl (Option.isSome_iff_exists.2 ⟨n, Option.mem_toList.1 hn⟩)
    · rintro (h | ⟨u, hu, h⟩)
      · obtain ⟨n, rfl⟩ := Option.isSome_iff_exists.1 h
        exact ⟨.prim .null n, List.mem_append_right _ (List.mem_singleton_self _), .null⟩
      · obtain ⟨m, hm, h⟩ := (ih u hu).2 h
        exact ⟨m, List.mem_append_left _ (List.mem_flatMap.2 ⟨u, hu, hm⟩), h⟩
  | _ => exact one _

section

variable {ms : List (Ty Authored)} {null : Option Authored} {bare : Bool}

/-- A streaming union has a null if the union has one, if a member brings one, or if nothing keeps
null outside. -/
theorem isSome_streamedNull : (streamedNull ms null bare).isSome = true ↔
    null.isSome = true ∨ (∃ m ∈ flattenAll keepsApart (streamAll true ms), m.isNull = true) ∨
      bare = false := by
  have hbrought : ((flattenAll keepsApart (streamAll true ms)).findSome? nullAnn?).isSome = true ↔
      ∃ m ∈ flattenAll keepsApart (streamAll true ms), m.isNull = true :=
    List.findSome?_isSome_iff
  rw [← hbrought]
  unfold streamedNull streamNull
  cases null with
  | some n => exact iff_of_true rfl (.inl rfl)
  | none =>
    cases (flattenAll keepsApart (streamAll true ms)).findSome? nullAnn? <;> cases bare <;> simp

/-- A streaming union that keeps null outside admits null exactly if the union does: a null that a
member brings stands beside the members, whatever stood between them. -/
theorem admitsNull_streamedUnion {a : Authored} {b : Streamed}
    (h : ∀ m ∈ ms, s.AdmitsNull (m.stream true) ↔ s.AdmitsNull m) :
    s.AdmitsNull (.union (streamMembers ms) (streamedNull ms null true) b) ↔
      s.AdmitsNull (.union ms null a) := by
  have hmembers : (∃ m ∈ flattenAll keepsApart (streamAll true ms), s.AdmitsNull m) ↔
      ∃ m ∈ ms, s.AdmitsNull m := by
    rw [flattenAll_eq_flatMap, streamAll_eq_map]
    constructor
    · rintro ⟨m, hm, hnull⟩
      obtain ⟨u, hu, hm⟩ := List.mem_flatMap.1 hm
      obtain ⟨t, ht, rfl⟩ := List.mem_map.1 hu
      exact ⟨t, ht, (h t ht).1 ((admitsNull_flatten keepsApart _).1 ⟨m, hm, hnull⟩)⟩
    · rintro ⟨t, ht, hnull⟩
      obtain ⟨m, hm, hnull⟩ := (admitsNull_flatten keepsApart _).2 ((h t ht).2 hnull)
      exact ⟨m, List.mem_flatMap.2 ⟨_, List.mem_map_of_mem ht, hm⟩, hnull⟩
  have hsome : (streamedNull ms null true).isSome = true ↔ null.isSome = true ∨
      ∃ m ∈ flattenAll keepsApart (streamAll true ms), m.isNull = true := by
    rw [isSome_streamedNull]
    simp
  rw [admitsNull_union_iff, admitsNull_union_iff, ← hmembers, hsome, or_assoc]
  refine or_congr_right ⟨?_, ?_⟩
  · rintro (⟨m, hm, hnull⟩ | ⟨m, hm, hnull⟩)
    · exact ⟨m, hm, admitsNull_of_isNull hnull⟩
    · exact ⟨m, List.mem_filter.1 ((dedupe_sublist _).subset hm) |>.1, hnull⟩
  · rintro ⟨m, hm, hnull⟩
    cases hn : m.isNull with
    | true => exact .inl ⟨m, hm, hn⟩
    | false =>
      refine .inr ⟨m, (mem_dedupe Streamed.legible).2 (List.mem_filter.2 ⟨hm, ?_⟩), hnull⟩
      rw [hn, Bool.not_false]

end

/-! ## Streaming types -/

/-- Where null stays outside, streaming changes nothing about it. -/
theorem admitsNull_stream (t : Ty Authored) (b : Bool) (hbare : (b || t.ann.flags.needed) = true) :
    s.AdmitsNull (t.stream b) ↔ s.AdmitsNull t := by
  revert hbare
  refine stream_induct (P := fun t b u => (b || t.ann.flags.needed) = true →
    (s.AdmitsNull u ↔ s.AdmitsNull t)) ?whole ?null ?leaf ?container ?union t b
  case whole =>
    intro t b _ hbare
    unfold wholeOf
    rw [hbare, Bool.true_or, if_pos rfl]
    exact admitsNull_whole t
  case null =>
    intro a b _ _
    exact iff_of_true .null .null
  case leaf =>
    intro t b _ _ hbare
    unfold streamLeaf
    rw [if_pos hbare]
    exact admitsNull_mapAnn _ _ t
  case container =>
    intro t b u _ ht hu _ _ _ _
    exact iff_of_false (not_admitsNull_of_isContainer hu) (not_admitsNull_of_isContainer ht)
  case union =>
    intro ms null a b _ ih hbare
    have hbare : (b || a.flags.needed) = true := hbare
    rw [hbare]
    exact admitsNull_streamedUnion fun m hm => ih m hm (Bool.true_or _)

/-- A missing field of a needed type is accepted on the way exactly if it is in the end. -/
theorem acceptsNull_streamed (hg : s.Guarded) {t : Ty Authored}
    (hneeded : t.ann.flags.needed = true) :
    s.acceptsNull t.toStreamed.toAuthored = s.acceptsNull t := by
  have hstreamed : s.AdmitsNull t.toStreamed ↔ s.AdmitsNull t :=
    admitsNull_stream t false (by rw [hneeded, Bool.or_true])
  rw [Bool.eq_iff_iff, acceptsNull_iff_admitsNull hg, acceptsNull_iff_admitsNull hg, ← hstreamed]
  exact admitsNull_unstream backAnn false _

theorem isOptional_of_isContainer {t : Ty μ} (h : t.isContainer = true) : t.isOptional = false := by
  cases t <;> first | rfl | cases h

theorem isOptional_of_isNull {t : Ty μ} (h : t.isNull = true) : t.isOptional = true := by
  obtain ⟨n, rfl⟩ := eq_null_of_isNull h
  rfl

/-- At the root only a container that does not arrive whole stays as it is. -/
theorem isOptional_toStreamed {t : Ty Authored} (hneeded : t.ann.flags.needed = false)
    (h : t.isContainer = false ∨ t.ann.flags.done = true) : t.toStreamed.isOptional = true := by
  refine stream_induct (P := fun t b u => b = false → t.ann.flags.needed = false →
    (t.isContainer = false ∨ t.ann.flags.done = true) → u.isOptional = true)
    ?whole ?null ?leaf ?container ?union t false rfl hneeded h
  case whole =>
    rintro t _ _ rfl hneeded _
    unfold wholeOf
    rw [hneeded]
    split
    · next hnull => exact isOptional_of_isNull (by rwa [isNull_whole])
    · exact isOptional_optionalOf _ _
  case null =>
    intro a b _ _ _ _
    rfl
  case leaf =>
    rintro t _ _ _ rfl hneeded _
    rw [hneeded]
    exact isOptional_optionalOf _ _
  case container =>
    intro t b u hd hcontainer _ _ _ _ _ _ h
    rw [hcontainer, hd] at h
    simp at h
  case union =>
    rintro ms null a _ _ _ rfl hneeded _
    exact isSome_streamedNull.2 (.inr (.inr hneeded))

/-- A needed type admits null once it is streamed exactly if it did before. A type that is not
needed becomes optional, unless it is a container that does not arrive whole: such a container never
does. -/
theorem nullability_toStreamed (s : Schema) (t : Ty Authored) :
    (t.ann.flags.needed = true → (s.AdmitsNull t.toStreamed ↔ s.AdmitsNull t)) ∧
    (t.ann.flags.needed = false → t.isContainer = false ∨ t.ann.flags.done = true →
      t.toStreamed.isOptional = true) ∧
    (t.isContainer = true → t.ann.flags.done = false → t.toStreamed.isOptional = false) := by
  refine ⟨fun hneeded => ?_, isOptional_toStreamed, fun hcontainer hd => ?_⟩
  · exact admitsNull_stream t false (by rw [hneeded, Bool.or_true])
  · exact isOptional_of_isContainer (stream_of_isContainer false hd hcontainer).1

/-- A needed union lets the null of an alias through two levels of members, a class that arrives
whole is wrapped, and a list stays one. -/
theorem nullability_thread :
    thread.AdmitsNull (union [union [aliasRef "Thread" .complete {}, prim .int {}] none {}] none
      ⟨[], { needed := true }⟩).toStreamed ∧
    (classRef "Post" .complete false ⟨[], { done := true }⟩ : Ty Authored).toStreamed.isOptional =
      true ∧
    (list (prim .int {}) {} : Ty Authored).toStreamed.isOptional = false := by
  refine ⟨((nullability_toStreamed thread _).1 rfl).2 ?_,
    (nullability_toStreamed thread _).2.1 rfl (.inr rfl),
    (nullability_toStreamed thread _).2.2 rfl rfl⟩
  exact .unionMember List.mem_cons_self
    (.unionMember List.mem_cons_self (.aliasRef rfl .unionNull))

end Schema

end ShapeSchema
