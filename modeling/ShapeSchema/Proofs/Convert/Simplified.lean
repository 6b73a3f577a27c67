import ShapeSchema.Proofs.Convert.Streamed
import ShapeSchema.Proofs.Ty.Simplify

/-!
# Simplified types take the same values

A simplified type admits exactly the values that the type admits (`Schema.admits_simplify_iff`), so
coercion succeeds at the one where it does at the other (`Coercer.succeeds_simplify_iff`). For a
union this is so at every stage: laying out nested unions admits the same values, and every type
that is left out afterwards has what it admits admitted by one that remains. Only a union of nothing
is different. It admits no value, and its simplified form is null.
-/

namespace ShapeSchema

open Ty

/-- Every union of a type has a member, null counted. -/
def Ty.Populated {μ : Type} (t : Ty μ) : Prop := ∀ u ∈ t.nodes, u.isUnion = true → u.children ≠ []

theorem Ty.Populated.child {μ : Type} {t u : Ty μ} (h : t.Populated) (hu : u ∈ t.children) :
    u.Populated := (forall_mem_nodes_iff.1 h).2 u hu

namespace Schema

variable {s : Schema} {v : Value}

/-! ## Annotations and nulls -/

theorem admits_withAnn_iff (t : Ty Authored) (a : Authored) :
    s.Admits v (t.withAnn a) ↔ s.Admits v t := by
  have hback : (t.withAnn a).withAnn t.ann = t := by cases t <;> rfl
  refine ⟨fun h => ?_, fun h => h.withAnn a⟩
  rw [← hback]
  exact h.withAnn t.ann

theorem admits_absorb_iff (t : Ty Authored) (a : Authored) :
    s.Admits v (t.absorb a) ↔ s.Admits v t := by
  unfold absorb withConstraints
  split
  · exact Iff.rfl
  · split
    · exact Iff.rfl
    · exact admits_withAnn_iff t _

theorem admits_null_iff (n : Authored) : s.Admits v (.prim .null n) ↔ v.isNull = true := by
  constructor
  · intro h
    cases h with
    | prim h => cases v <;> first | rfl | cases h
  · intro h
    cases v <;> first | exact .prim rfl | cases h

theorem admits_children_iff (ms : List (Ty Authored)) (null : Option Authored) (a : Authored) :
    s.Admits v (.union ms null a) ↔ ∃ u ∈ (Ty.union ms null a).children, s.Admits v u := by
  rw [admits_union_iff]
  show _ ↔ ∃ u ∈ ms ++ nullMember null, s.Admits v u
  cases null with
  | none => simp [nullMember]
  | some n => simp [nullMember, or_and_right, exists_or, admits_null_iff, or_comm]

theorem admits_optionalOf_iff (t : Ty Authored) (n : Authored) :
    s.Admits v (Ty.optionalOf t n) ↔ v.isNull = true ∨ s.Admits v t := by
  unfold Ty.optionalOf
  split
  · rw [admits_null_iff, or_self]
  · simp [admits_union_iff]
  · simp [admits_union_iff]
  · simp [admits_union_iff]

/-! ## Unions -/

/-- Together, the members that a type contributes to a union admit what the type admits. -/
theorem admits_flatten_iff (keep : Authored → Bool) (t : Ty Authored) :
    (∃ m ∈ flatten keep t, s.Admits v m) ↔ s.Admits v t := by
  induction t using induct with
  | union ms null a ih =>
    rw [flatten]
    split
    · simp
    · rw [admits_children_iff, flattenAll_eq_flatMap]
      show _ ↔ ∃ u ∈ ms ++ nullMember null, s.Admits v u
      simp only [List.mem_append, List.mem_flatMap, or_and_right, exists_or]
      refine or_congr_left ⟨?_, ?_⟩
      · rintro ⟨m, ⟨t, ht, hm⟩, h⟩
        exact ⟨t, ht, (ih t ht).1 ⟨m, hm, h⟩⟩
      · rintro ⟨t, ht, h⟩
        obtain ⟨m, hm, h⟩ := (ih t ht).2 h
        exact ⟨m, ⟨t, ht, hm⟩, h⟩
  | _ => simp [flatten]

theorem admits_laidOut_iff (ts : List (Ty Authored)) :
    (∃ m ∈ laidOut ts, s.Admits v m) ↔ ∃ t ∈ ts, s.Admits v t := by
  simp only [mem_laidOut]
  constructor
  · rintro ⟨m, ⟨t, ht, hm⟩, h⟩
    exact ⟨t, ht, (admits_flatten_iff _ t).1 ⟨m, hm, h⟩⟩
  · rintro ⟨t, ht, h⟩
    obtain ⟨m, hm, h⟩ := (admits_flatten_iff Metadata.hasChecks t).2 h
    exact ⟨m, ⟨t, ht, hm⟩, h⟩

/-- What is covered by a union is admitted by it. -/
theorem admits_of_covered {t u : Ty Authored} (hcover : coveredByUnion t u = true)
    (h : s.Admits v t) : s.Admits v u := by
  obtain ⟨ms, null, a, rfl, hnull | hmem⟩ := (coveredByUnion_iff Authored.legible).1 hcover
  · obtain ⟨n, rfl⟩ := eq_null_of_isNull hnull.1
    exact admits_union_iff.2 (.inl (Bool.and_eq_true_iff.2 ⟨(admits_null_iff n).1 h, hnull.2⟩))
  · exact .unionMember hmem h

/-- What remains of some types admits what they admit. -/
theorem admits_remaining_iff (ts : List (Ty Authored)) :
    ((v.isNull && (remainingNull ts).isSome) = true ∨ ∃ m ∈ remaining ts, s.Admits v m) ↔
      ∃ m ∈ laidOut ts, s.Admits v m := by
  constructor
  · rintro (hnull | ⟨m, hm, h⟩)
    · obtain ⟨hv, hsome⟩ := Bool.and_eq_true_iff.1 hnull
      obtain ⟨n, hn⟩ := Option.isSome_iff_exists.1 hsome
      have hmem := (mem_uncovered.1 (laidOut_of_remainingNull hn)).1
      exact ⟨_, hmem, (admits_null_iff n).2 hv⟩
    · exact ⟨m, (laidOut_of_remaining hm).1, h⟩
  · rintro ⟨m, hm, h⟩
    rcases accounted Authored.legible hm with hmem | ⟨hnull, hsome⟩ | ⟨u, hu, hcover⟩
    · exact .inr ⟨m, hmem, h⟩
    · obtain ⟨n, rfl⟩ := eq_null_of_isNull hnull
      exact .inl (Bool.and_eq_true_iff.2 ⟨(admits_null_iff n).1 h, hsome⟩)
    · exact .inr ⟨u, hu, admits_of_covered hcover h⟩

theorem admits_simplifyUnion_iff {ts : List (Ty Authored)} (hne : laidOut ts ≠ [])
    (a b : Authored) : s.Admits v (simplifyUnion ts a b) ↔ ∃ t ∈ ts, s.Admits v t := by
  rw [← admits_laidOut_iff, ← admits_remaining_iff]
  refine simplifyUnion_cases (fun h => ?_) (fun t h hn => ?_) (fun t n h hn => ?_) fun _ => ?_
  · rw [admits_null_iff, h, remainingNull_isSome Authored.legible hne h]
    simp
  · rw [h, hn]
    simp
  · rw [admits_optionalOf_iff, h, hn]
    simp
  · rw [admits_union_iff]

/-! ## Containers -/

theorem admits_list_congr {i j : Ty Authored} {a : Authored}
    (h : ∀ x, s.Admits x i ↔ s.Admits x j) : s.Admits v (.list i a) ↔ s.Admits v (.list j a) := by
  refine ⟨fun hv => ?_, fun hv => ?_⟩
  · cases hv with
    | list hitems hall => exact .list hitems fun x hx => (h x).1 (hall x hx)
  · cases hv with
    | list hitems hall => exact .list hitems fun x hx => (h x).2 (hall x hx)

theorem admits_tuple_congr {f : Ty Authored → Ty Authored} {is : List (Ty Authored)} {a : Authored}
    (h : ∀ t ∈ is, ∀ x, s.Admits x (f t) ↔ s.Admits x t) :
    s.Admits v (.tuple (is.map f) a) ↔ s.Admits v (.tuple is a) := by
  cases hitems : v.items? with
  | none =>
    refine iff_of_false (fun h => ?_) fun h => ?_ <;>
    · cases h with
      | tuple hitems' => rw [hitems] at hitems'; cases hitems'
  | some items =>
    rw [admits_tuple_iff hitems, admits_tuple_iff hitems, List.length_map, List.zip_map_right,
      List.forall_mem_map]
    exact and_congr_right fun _ => forall₂_congr fun p hp => h p.2 (List.of_mem_zip hp).2 p.1

/-! ## Simplified types -/

theorem laidOut_simplify_ne_nil {ts : List (Ty Authored)} (h : ts ≠ []) :
    laidOut (ts.map simplify) ≠ [] := by
  obtain ⟨t, ht⟩ := List.exists_mem_of_ne_nil _ h
  obtain ⟨m, hm⟩ := List.exists_mem_of_ne_nil _ (flatten_simplify_ne_nil t)
  exact List.ne_nil_of_mem (mem_laidOut.2 ⟨_, List.mem_map_of_mem ht, hm⟩)

/-- A simplified type admits the values that the type admits. -/
theorem admits_simplify_iff {t : Ty Authored} (hp : t.Populated) :
    s.Admits v t.simplify ↔ s.Admits v t := by
  induction t using inductChildren generalizing v with
  | step t ih =>
    have below : ∀ u ∈ t.children, ∀ x, s.Admits x u.simplify ↔ s.Admits x u :=
      fun u hu x => ih u hu (hp.child hu)
    cases t with
    | list i a => exact admits_list_congr (below i List.mem_cons_self)
    | tuple is a =>
      rw [simplify, simplifyAll_eq_map]
      exact admits_tuple_congr below
    | map k w a =>
      refine ⟨fun h => ?_, fun h => ?_⟩ <;>
      · cases h with
        | map hes => exact .map hes
    | arrow ps r a =>
      refine iff_of_false ?_ ?_
      · rintro ⟨⟩
      · rintro ⟨⟩
    | union ms null a =>
      have hne : (Ty.union ms null a).children ≠ [] := hp _ (mem_nodes _) rfl
      rw [simplify_of_isUnion rfl, admits_absorb_iff,
        admits_simplifyUnion_iff (laidOut_simplify_ne_nil hne), admits_children_iff]
      simp only [List.mem_map, exists_exists_and_eq_and]
      exact exists_congr fun u => and_congr_right fun hu => below u hu v
    | _ => exact Iff.rfl

end Schema

/-! ## Coercion -/

/-- Coercion to a simplified type succeeds exactly where coercion to the type does. -/
theorem Coercer.succeeds_simplify_iff {s : Schema} (hc : s.Closed) (hg : s.Guarded)
    {t : Ty Authored} (hp : t.Populated) (hk : s.offersAll t = true) {eval : Evaluator} {v : Value}
    {path : Path} : (run ⟨s, eval, .quiet⟩ v t.simplify path).Succeeds ↔
      (run ⟨s, eval, .quiet⟩ v t path).Succeeds := by
  have hsimple : s.offersAll t.simplify = true :=
    Schema.offersAll_iff.2 fun r hr => Schema.offersAll_iff.1 hk r (mentions_of_simplify hr)
  rw [succeeds_run_iff hc hg (Schema.knows_of_offersAll hk),
    succeeds_run_iff hc hg (Schema.knows_of_offersAll hsimple)]
  exact Schema.admits_simplify_iff hp

/-- What a feed holds: a pinned entry of a thread, threads and notes, ratings under a check, and a
null and a float that the ratings cover. -/
def feed : Ty Authored :=
  .union [.tuple [thread.target] {},
    .union [.aliasRef "Thread" .complete {}, .classRef "Note" .complete false {}] none {},
    .union [.prim .float {}, .enumRef "Kind" false {}] (some {})
      ⟨[⟨.check, some "fair", "this"⟩], {}⟩,
    .prim .float {}] (some {}) {}

theorem succeeds_simplify_post : thread.Closed ∧ thread.Guarded ∧ feed.Populated ∧
    thread.offersAll feed = true ∧
    (Coercer.run ⟨thread, fun _ _ => .ok false, .quiet⟩ (.list [post]) feed.simplify
      .root).Succeeds := by
  have hc : thread.Closed := Schema.closed_of_offersAll (by decide) (by decide)
  have hp : feed.Populated := by
    unfold Ty.Populated
    decide
  have hk : thread.offersAll feed = true := by decide
  have hv : thread.Admits (.list [post]) feed := by
    refine .unionMember List.mem_cons_self (.tuple rfl rfl fun p hp => ?_)
    rw [List.mem_singleton.1 hp]
    exact admits_post
  have hrun : (Coercer.run ⟨thread, fun _ _ => .ok false, .quiet⟩ (.list [post]) feed
      .root).Succeeds :=
    (Coercer.succeeds_run_iff hc guarded_thread (Schema.knows_of_offersAll hk) _ .root).2 hv
  exact ⟨hc, guarded_thread, hp, hk, (Coercer.succeeds_simplify_iff hc guarded_thread hp hk).2 hrun⟩

end ShapeSchema
