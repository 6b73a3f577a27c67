import ShapeSchema.Proofs.Ty.Flags

/-!
# Open unions

A union of a streaming type is open while neither it nor a node above it is done. Streaming brings
every open union into normal form (`openForm_toStreamed`): its members differ, none of them is null,
and one that is a union itself carries a check or a flag that keeps it apart. What stands below
something that is done keeps the members it was authored with, so nothing of the kind holds there.

The normal form arises where a union is put together, and from then on only nulls are added to the
union: a member is taken over as it is, and a wrapper around an optional part has that part alone.
-/

namespace ShapeSchema.Ty

/-- The normal form of the members of a streaming union. -/
structure OpenForm (ms : List (Ty Streamed)) : Prop where
  apart : ms.Pairwise fun m u => m.same u = false
  notNull : ∀ m ∈ ms, m.isNull = false
  flat : ∀ m ∈ ms, FlatIn keepsApart m

/-- Every union has members in normal form that is neither done nor below something done. -/
def OpenUnions (t : Ty Streamed) : Prop :=
  ∀ path ms null a, Branch t path (union ms null a) → (∀ w ∈ path, w.ann.done = false) →
    OpenForm ms

/-! ## Members -/

theorem openForm_singleton {m : Ty Streamed} (hu : m.isUnion = false) (hn : m.isNull = false) :
    OpenForm [m] where
  apart := List.pairwise_singleton _ m
  notNull := by simpa using hn
  flat u hmem hunion := by
    rw [List.mem_singleton.1 hmem, hu] at hunion
    cases hunion

theorem openForm_streamMembers (ts : List (Ty Authored)) : OpenForm (streamMembers ts) where
  apart := apart_dedupe _
  notNull _ hm := (mem_streamMembers.1 hm).2
  flat := flatIn_streamMembers

/-! ## Unions at every depth -/

section

variable {t : Ty Streamed}

/-- Nothing is open below what is done. -/
theorem openUnions_of_done (h : t.ann.done = true) : t.OpenUnions := by
  intro path ms null a hpath hopen
  have hroot : t ∈ path := by cases hpath <;> exact List.mem_cons_self
  rw [hopen t hroot] at h
  cases h

theorem openUnions_iff (hd : t.ann.done = false) : t.OpenUnions ↔
    (∀ ms null a, t = union ms null a → OpenForm ms) ∧ ∀ v ∈ t.children, v.OpenUnions := by
  constructor
  · intro h
    constructor
    · rintro ms null a rfl
      exact h _ ms null a .root (by simpa using hd)
    · intro v hv path ms null a hpath hopen
      exact h _ ms null a (.down hv hpath) (List.forall_mem_cons.2 ⟨hd, hopen⟩)
  · rintro ⟨hroot, hchildren⟩ path ms null a hpath hopen
    cases hpath with
    | root => exact hroot ms null a rfl
    | down hv hpath => exact hchildren _ hv _ ms null a hpath (List.forall_mem_cons.1 hopen).2

theorem openUnions_of_children (hu : t.isUnion = false) (h : ∀ v ∈ t.children, v.OpenUnions) :
    t.OpenUnions := by
  cases hd : t.ann.done with
  | true => exact openUnions_of_done hd
  | false =>
    refine (openUnions_iff hd).2 ⟨?_, h⟩
    rintro ms null a rfl
    cases hu

theorem openUnions_null (n : Streamed) : (prim .null n).OpenUnions :=
  openUnions_of_children rfl fun _ hv => absurd hv List.not_mem_nil

theorem openUnions_union {ms : List (Ty Streamed)} {null : Option Streamed} {a : Streamed}
    (hd : a.done = false) :
    (union ms null a).OpenUnions ↔ OpenForm ms ∧ ∀ m ∈ ms, m.OpenUnions := by
  rw [openUnions_iff (show (union ms null a).ann.done = false from hd)]
  constructor
  · exact fun h => ⟨h.1 ms null a rfl, fun m hm => h.2 m (List.mem_append_left _ hm)⟩
  · rintro ⟨hroot, hms⟩
    constructor
    · intro ms' null' a' heq
      injection heq with h₁
      rwa [← h₁]
    · intro v hv
      rcases List.mem_append.1 hv with hv | hv
      · exact hms v hv
      · obtain ⟨n, rfl⟩ := eq_null_of_isNull (isNull_of_mem_nullMember hv)
        exact openUnions_null n

/-- Nulls may be added to a union. -/
theorem OpenUnions.withNull {ms : List (Ty Streamed)} {null : Option Streamed} {a : Streamed}
    (h : (union ms null a).OpenUnions) (null' : Option Streamed) :
    (union ms null' a).OpenUnions := by
  cases hd : a.done with
  | true => exact openUnions_of_done hd
  | false => exact (openUnions_union hd).2 ((openUnions_union hd).1 h)

/-- What a union takes over from a type. -/
theorem OpenUnions.flatten {m : Ty Streamed} (h : t.OpenUnions)
    (hm : m ∈ flatten keepsApart t) : m.OpenUnions :=
  forall_mem_flatten (fun _ hkeep hv => ((openUnions_iff (done_of_keepsApart hkeep)).1 hv).2) h hm

/-- A type made optional becomes the only member of a new union, unless it is null or a union
itself. -/
theorem OpenUnions.optionalOf (h : t.OpenUnions) {n : Streamed} (hn : n.done = false) :
    (optionalOf t n).OpenUnions := by
  by_cases hnull : t.isNull = true
  · obtain ⟨b, rfl⟩ := eq_null_of_isNull hnull
    exact h
  by_cases hunion : t.isUnion = true
  · cases t with
    | union ms null a => cases null <;> exact h.withNull _
    | _ => cases hunion
  · have hu : t.isUnion = false := Bool.eq_false_iff.2 hunion
    have hplain : t.isNull = false := Bool.eq_false_iff.2 hnull
    rw [optionalOf_of_plain hu hplain, openUnions_union hn]
    exact ⟨openForm_singleton hu hplain, List.forall_mem_singleton.2 h⟩

end

/-! ## Streaming -/

theorem openUnions_wholeOf (b : Bool) (t : Ty Authored) : (wholeOf b t).OpenUnions := by
  have hwhole : t.whole.OpenUnions := openUnions_of_done (by rw [ann_whole])
  unfold wholeOf
  split
  · exact hwhole
  · exact hwhole.optionalOf rfl

theorem openUnions_partialLeaf {t : Ty Authored} (h : t.hasLeafForm = true) (a : Streamed) :
    (t.partialLeaf a).OpenUnions := by
  refine openUnions_of_children ?_ ?_
  · exact (isUnion_mapAnn _ _ t).trans (isUnion_of_hasLeafForm h)
  · unfold partialLeaf
    rw [children_mapAnn, children_of_hasLeafForm h]
    exact fun _ hv => absurd hv List.not_mem_nil

theorem openUnions_stream (t : Ty Authored) (b : Bool) : (t.stream b).OpenUnions := by
  refine stream_induct (P := fun _ _ u => u.OpenUnions) ?whole ?null ?leaf ?container ?union t b
  case whole =>
    intro t b _
    exact openUnions_wholeOf b t
  case null =>
    intro a b _
    exact openUnions_null _
  case leaf =>
    intro t b _ hleaf
    unfold streamLeaf
    split
    · exact openUnions_partialLeaf hleaf _
    · exact (openUnions_partialLeaf hleaf _).optionalOf rfl
  case container =>
    intro t b u _ _ hu _ hchildren ih
    have hunion : u.isUnion = false := by cases u <;> first | rfl | cases hu
    refine openUnions_of_children hunion ?_
    rw [hchildren, List.forall_mem_map]
    exact ih
  case union =>
    intro ms null a b _ ih
    refine (openUnions_union rfl).2 ⟨openForm_streamMembers ms, fun m hm => ?_⟩
    obtain ⟨⟨t, ht, hmt⟩, -⟩ := mem_streamMembers.1 hm
    exact (ih t ht).flatten hmt

/-- A union of a streaming type that is neither done nor below something done has members that
differ, none of them null; a member that is a union itself has a check, or is done, or stateful. -/
theorem openForm_toStreamed {t : Ty Authored} {path ms : List (Ty Streamed)}
    {null : Option Streamed} {a : Streamed} (h : Branch t.toStreamed path (union ms null a))
    (hopen : ∀ w ∈ path, w.ann.done = false) :
    (ms.Pairwise fun m u => m.same u = false) ∧ (∀ m ∈ ms, m.isNull = false) ∧
      ∀ m ∈ ms, m.isUnion = true →
        Metadata.hasChecks m.ann = true ∨ m.ann.done = true ∨ m.ann.state = true := by
  have hform := openUnions_stream t false path ms null a h hopen
  refine ⟨hform.apart, hform.notNull, fun m hm hu => ?_⟩
  have hkeeps := hform.flat m hm hu
  simp only [keepsApart, Bool.or_eq_true, or_assoc] at hkeeps
  exact hkeeps

/-- Below something that is done, members stay as they were authored. -/
example : (union [prim .int {}, prim .int {}] (some {}) ⟨[], { done := true }⟩ :
    Ty Authored).toStreamed = union [prim .int {}, prim .int {}] (some {}) ⟨[], true, false⟩ := rfl

/-- A stateful rating, which stays a union of its own inside a union. -/
def rating : Ty Authored :=
  union [prim .int {}, union [prim .bool {}, prim .int {}] none {}] (some {})
    ⟨[], { state := true }⟩

def feedback : Ty Authored := union [prim .string {}, rating, prim .string {}] none {}

/-- Both unions of streamed feedback are open. -/
theorem openForm_feedback :
    (∃ ms null a, feedback.toStreamed = union ms null a ∧
      (ms.Pairwise fun m u => m.same u = false) ∧ (∀ m ∈ ms, m.isNull = false) ∧
      ∀ m ∈ ms, m.isUnion = true →
        Metadata.hasChecks m.ann = true ∨ m.ann.done = true ∨ m.ann.state = true) ∧
    ∃ ms null a, union ms null a ∈ feedback.toStreamed.children ∧
      (ms.Pairwise fun m u => m.same u = false) ∧ (∀ m ∈ ms, m.isNull = false) ∧
      ∀ m ∈ ms, m.isUnion = true →
        Metadata.hasChecks m.ann = true ∨ m.ann.done = true ∨ m.ann.state = true := by
  have hroot : feedback.toStreamed.ann.done = false := rfl
  have hrating : rating.stream true ∈ feedback.toStreamed.children :=
    List.mem_append_left _ (mem_streamMembers.2
      ⟨⟨rating, List.mem_cons_of_mem _ List.mem_cons_self, List.mem_cons_self⟩, rfl⟩)
  have hopen : (rating.stream true).ann.done = false := rfl
  exact ⟨⟨_, _, _, rfl, openForm_toStreamed .root (List.forall_mem_singleton.2 hroot)⟩,
    ⟨_, _, _, hrating, openForm_toStreamed (.down hrating .root)
      (List.forall_mem_cons.2 ⟨hroot, List.forall_mem_singleton.2 hopen⟩)⟩⟩

end ShapeSchema.Ty
