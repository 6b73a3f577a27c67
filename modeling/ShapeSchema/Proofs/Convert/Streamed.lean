import ShapeSchema.Proofs.Convert.Admits
import ShapeSchema.Proofs.Ty.Streaming

/-!
# Complete values fit streaming types

The streaming type of a type admits every value that the type admits (`Schema.Admits.streamed`), so
a value that is received in full is never refused on the way (`Coercer.succeeds_streamed`). A union
loses no member for that: flattening puts the members of a member in its place, and deduplication
drops only types that stay elsewhere.
-/

namespace ShapeSchema

open Ty

/-- Classes are registered in their complete form only, and refer to complete definitions. -/
structure Schema.CompleteOnly (s : Schema) : Prop where
  classes : ∀ c ∈ s.classes, c.mode = .complete
  fields : ∀ c ∈ s.classes, ∀ f ∈ c.fields, f.type.Complete

/-! ## Complete types -/

namespace Ty

variable {μ : Type} {a : μ}

theorem Complete.mode {name : String} {mode : Mode} {dyn : Bool}
    (h : Complete (.classRef name mode dyn a)) : mode = .complete := by
  injection h with _ hm
  exact hm.symm

theorem Complete.item {item : Ty μ} (h : Complete (.list item a)) : Complete item := by
  injection h

theorem Complete.items {types : List (Ty μ)} (h : Complete (.tuple types a)) :
    ∀ t ∈ types, Complete t := by
  injection h with h
  rw [mapAnns_eq_map] at h
  exact List.map_inj_left.1 (h.trans (List.map_id _).symm)

theorem Complete.members {ms : List (Ty μ)} {null : Option μ} (h : Complete (.union ms null a)) :
    ∀ m ∈ ms, Complete m := by
  injection h with h
  rw [mapAnns_eq_map] at h
  exact List.map_inj_left.1 (h.trans (List.map_id _).symm)

end Ty

namespace Schema

variable {s : Schema} {v : Value}

/-- A class for partial values is derived from the complete one. -/
theorem CompleteOnly.findClass? (hs : s.CompleteOnly) {name : String} {d : ClassDef}
    (hd : s.findClass? name .complete = some d) :
    s.findClass? name .partialValue = some d.streamed := by
  have hreg : s.registered? name .complete = some d := hd
  have hnone : s.registered? name .partialValue = none := by
    refine List.find?_eq_none.2 fun c hc h => ?_
    rw [hs.classes c hc, Bool.and_eq_true] at h
    cases h.2
  unfold Schema.findClass?
  rw [hnone, hreg]
  rfl

/-! ## Whole subtrees -/

/-- A complete type admits the same values inside a subtree that arrives whole. -/
theorem Admits.kept {t : Ty Authored} (h : s.Admits v t) (ht : t.Complete) (inUnion : Bool) :
    s.Admits v ((t.mapAnn keptAnn (some .complete)).unstream backAnn inUnion) := by
  induction h generalizing inUnion with
  | top => exact .top
  | prim h => exact .prim h
  | literal h => exact .literal h
  | enumRef he hv hx => exact .enumRef he hv hx
  | classRef hd hes hfs =>
    obtain rfl := ht.mode
    exact .classRef hd hes hfs
  | list hitems _ ih => exact .list hitems fun x hx => ih x hx ht.item false
  | map hes => exact .map hes
  | tuple hitems hlen _ ih =>
    rw [mapAnn, mapAnns_eq_map, unstream, unstreamAll_eq_map, List.map_map]
    refine .tuple hitems (by rw [List.length_map, hlen]) fun p hp => ?_
    rw [List.zip_map_right] at hp
    obtain ⟨q, hq, rfl⟩ := List.mem_map.1 hp
    exact ih q hq (ht.items q.2 (List.of_mem_zip hq).2) false
  | aliasRef he h => exact .aliasRef he h
  | unionNull => exact .unionNull
  | unionMember hm _ ih =>
    rw [mapAnn, mapAnns_eq_map, unstream, unstreamAll_eq_map, List.map_map]
    exact .unionMember (List.mem_map_of_mem hm) (ih (ht.members _ hm) true)

theorem unstream_withAnn (t : Ty Streamed) (a : Streamed) (inUnion : Bool) :
    ∃ b, (t.withAnn a).unstream backAnn inUnion = (t.unstream backAnn inUnion).withAnn b := by
  cases t <;> exact ⟨_, rfl⟩

theorem Admits.whole {t : Ty Authored} (h : s.Admits v t) (ht : t.Complete) (inUnion : Bool) :
    s.Admits v (t.whole.unstream backAnn inUnion) := by
  obtain ⟨b, hb⟩ := unstream_withAnn (t.mapAnn keptAnn (some .complete)) _ inUnion
  show s.Admits v (((t.mapAnn keptAnn (some .complete)).withAnn _).unstream backAnn inUnion)
  rw [hb]
  exact (h.kept ht inUnion).withAnn b

/-! ## Optional types -/

/-- Where a type stands does not matter for what it admits. -/
theorem Admits.elsewhere {t : Ty Streamed} {inUnion : Bool}
    (h : s.Admits v (t.unstream backAnn inUnion)) (other : Bool) :
    s.Admits v (t.unstream backAnn other) := by
  have hsame : ∃ b, t.unstream backAnn other = (t.unstream backAnn inUnion).withAnn b := by
    cases t <;> exact ⟨_, rfl⟩
  obtain ⟨b, hb⟩ := hsame
  rw [hb]
  exact h.withAnn b

theorem Admits.optionalOf {t : Ty Streamed} {inUnion : Bool}
    (h : s.Admits v (t.unstream backAnn inUnion)) (a : Streamed) (other : Bool) :
    s.Admits v ((Ty.optionalOf t a).unstream backAnn other) := by
  unfold Ty.optionalOf
  split
  · exact h.elsewhere other
  · exact h.elsewhere other
  · rw [unstream, admits_union_iff] at h
    rw [unstream]
    rcases h with hnull | ⟨m, hm, h⟩
    · rw [Bool.and_eq_true] at hnull
      cases hnull.2
    · exact .unionMember hm h
  · rw [unstream]
    exact .unionMember List.mem_cons_self (h.elsewhere true)

theorem Admits.wholeOf {t : Ty Authored} (h : s.Admits v t) (ht : t.Complete)
    (inUnion other : Bool) :
    s.Admits v ((Ty.wholeOf inUnion t).unstream backAnn other) := by
  unfold Ty.wholeOf
  split
  · exact h.whole ht other
  · exact (h.whole ht other).optionalOf _ other

theorem admits_streamLeaf {a : Authored} {bare whole : Bool} {build : Streamed → Ty Streamed}
    (h : ∀ b, s.Admits v ((build b).unstream backAnn true)) (other : Bool) :
    s.Admits v ((streamLeaf a bare whole build).unstream backAnn other) := by
  unfold streamLeaf
  split
  · exact (h _).elsewhere other
  · exact (h _).optionalOf _ other

/-! ## Unions -/

/-- Flattening a type loses no value: one of the members that it contributes takes it over. -/
theorem Admits.exists_flatten (keep : Streamed → Bool) {t : Ty Streamed}
    (h : s.Admits v (t.unstream backAnn true)) :
    ∃ m ∈ flatten keep t, s.Admits v (m.unstream backAnn true) := by
  induction t using induct with
  | union ms null a ih =>
    rw [flatten]
    split
    · exact ⟨_, List.mem_singleton_self _, h⟩
    rw [unstream, admits_union_iff, unstreamAll_eq_map] at h
    rcases h with hnull | ⟨m, hm, h⟩
    · obtain ⟨hv, hsome⟩ := Bool.and_eq_true_iff.1 hnull
      rw [Option.isSome_map, Option.isSome_iff_exists] at hsome
      obtain ⟨n, rfl⟩ := hsome
      refine ⟨.prim .null n, List.mem_append_right _ (List.mem_singleton_self _), .prim ?_⟩
      cases v with
      | null => rfl
      | _ => cases hv
    · obtain ⟨u, hu, rfl⟩ := List.mem_map.1 hm
      obtain ⟨m, hm, h⟩ := ih u hu h
      refine ⟨m, List.mem_append_left _ ?_, h⟩
      rw [flattenAll_eq_flatMap]
      exact List.mem_flatMap.2 ⟨u, hu, hm⟩
  | _ => exact ⟨_, List.mem_singleton_self _, h⟩

theorem isSome_streamNull {own : Option Streamed} {flat : List (Ty Streamed)} {n : Streamed}
    (hn : .prim .null n ∈ flat) (bare : Bool) : ∃ n', streamNull own flat bare = some n' := by
  have hfind : (flat.findSome? nullAnn?).isSome = true :=
    List.findSome?_isSome_iff.2 ⟨_, hn, rfl⟩
  have hsome : (own.or (flat.findSome? nullAnn?)).isSome = true := by
    rw [Option.isSome_or, hfind, Bool.or_true]
  obtain ⟨n', hn'⟩ := Option.isSome_iff_exists.1 hsome
  unfold streamNull
  rw [hn']
  exact ⟨n', rfl⟩

/-- A streaming union admits what one of its streamed members admits: the members that this one
contributes stay, and of several nulls one does. -/
theorem admits_streamUnion {ms : List (Ty Authored)} {own : Option Streamed} {bare : Bool}
    {a : Streamed} {t : Ty Authored} (ht : t ∈ ms)
    (h : s.Admits v ((t.stream true).unstream backAnn true)) (other : Bool) :
    s.Admits v ((union (streamMembers ms)
      (streamNull own (flattenAll keepsApart (streamAll true ms)) bare) a).unstream backAnn
        other) := by
  obtain ⟨m, hm, h⟩ := h.exists_flatten keepsApart
  rw [unstream]
  by_cases hnull : m.isNull = true
  · obtain ⟨n, rfl⟩ := eq_null_of_isNull hnull
    have hflat : .prim .null n ∈ flattenAll keepsApart (streamAll true ms) := by
      rw [flattenAll_eq_flatMap, streamAll_eq_map]
      exact List.mem_flatMap.2 ⟨_, List.mem_map_of_mem ht, hm⟩
    obtain ⟨n', hn'⟩ := isSome_streamNull hflat bare
    rw [hn']
    have hv : v = .null := by
      cases h with
      | prim h => cases v <;> first | rfl | cases h
    rw [hv]
    exact .unionNull
  · refine .unionMember ?_ h
    rw [unstreamAll_eq_map]
    exact List.mem_map_of_mem (mem_streamMembers.2 ⟨⟨t, ht, hm⟩, Bool.eq_false_iff.2 hnull⟩)

/-! ## Streaming types -/

/-- A subtree that arrives whole needs no look at its form. -/
theorem Admits.ofOpen {t : Ty Authored} (h : s.Admits v t) (ht : t.Complete) {inUnion other : Bool}
    (hopen : ¬ t.ann.flags.done = true → s.Admits v ((t.stream inUnion).unstream backAnn other)) :
    s.Admits v ((t.stream inUnion).unstream backAnn other) := by
  by_cases hd : t.ann.flags.done = true
  · rw [stream_of_done inUnion hd]
    exact h.wholeOf ht inUnion other
  · exact hopen hd

/-- The streaming type admits every value that the type admits. -/
theorem Admits.streamed (hs : s.CompleteOnly) {t : Ty Authored} (h : s.Admits v t)
    (ht : t.Complete) (inUnion other : Bool) :
    s.Admits v ((t.stream inUnion).unstream backAnn other) := by
  induction h generalizing inUnion other with
  | @top v a =>
    refine Admits.ofOpen .top ht fun (hd : ¬ a.flags.done = true) => ?_
    rw [stream, if_neg hd]
    exact admits_streamLeaf (fun _ => .top) other
  | @prim v p a h =>
    refine Admits.ofOpen (.prim h) ht fun (hd : ¬ a.flags.done = true) => ?_
    by_cases hp : p = .null
    · rw [hp, stream, if_neg hd]
      exact .prim (hp ▸ h)
    · rw [stream, if_neg hd]
      · exact admits_streamLeaf (fun _ => .prim h) other
      · exact hp
  | @literal v l a h =>
    refine Admits.ofOpen (.literal h) ht fun (hd : ¬ a.flags.done = true) => ?_
    rw [stream, if_neg hd]
    exact admits_streamLeaf (fun _ => .literal h) other
  | @enumRef v name key dyn a e he hv hx =>
    refine Admits.ofOpen (.enumRef he hv hx) ht fun (hd : ¬ a.flags.done = true) => ?_
    rw [stream, if_neg hd]
    exact admits_streamLeaf (fun _ => .enumRef he hv hx) other
  | @classRef v name mode dyn a d es hfound hes hfs ih =>
    refine Admits.ofOpen (.classRef hfound hes hfs) ht fun (hd : ¬ a.flags.done = true) => ?_
    obtain rfl := ht.mode
    rw [stream, if_neg hd]
    -- the derived definition has the same fields, each with its streaming type
    refine admits_streamLeaf (fun _ => .classRef (hs.findClass? hfound) hes fun f hf => ?_) other
    obtain ⟨f, hmem, rfl⟩ := List.mem_map.1 hf
    exact ih f hmem (hs.fields d (List.mem_of_find?_eq_some hfound) f hmem) false false
  | @list v items item a hitems h ih =>
    refine Admits.ofOpen (.list hitems h) ht fun (hd : ¬ a.flags.done = true) => ?_
    rw [stream, if_neg hd]
    exact .list hitems fun x hx => ih x hx ht.item false false
  | @map v es key value a hes =>
    refine Admits.ofOpen (.map hes) ht fun (hd : ¬ a.flags.done = true) => ?_
    rw [stream, if_neg hd]
    exact .map hes
  | @tuple v items types a hitems hlen h ih =>
    refine Admits.ofOpen (.tuple hitems hlen h) ht fun (hd : ¬ a.flags.done = true) => ?_
    rw [stream, if_neg hd, streamAll_eq_map, unstream, unstreamAll_eq_map, List.map_map]
    refine .tuple hitems (by rw [List.length_map, hlen]) fun p hp => ?_
    rw [List.zip_map_right] at hp
    obtain ⟨q, hq, rfl⟩ := List.mem_map.1 hp
    exact ih q hq (ht.items q.2 (List.of_mem_zip hq).2) false false
  | @aliasRef v name mode a e he h =>
    refine Admits.ofOpen (.aliasRef he h) ht fun (hd : ¬ a.flags.done = true) => ?_
    rw [stream, if_neg hd]
    exact admits_streamLeaf (fun _ => .aliasRef he h) other
  | @unionNull ms n a =>
    refine Admits.ofOpen .unionNull ht fun (hd : ¬ a.flags.done = true) => ?_
    rw [stream, if_neg hd]
    exact .unionNull
  | @unionMember v m ms null a hm h ih =>
    refine Admits.ofOpen (.unionMember hm h) ht fun (hd : ¬ a.flags.done = true) => ?_
    rw [stream, if_neg hd]
    exact admits_streamUnion hm (ih (ht.members m hm) true true) other

end Schema

/-! ## Coercion -/

/-- A value that coercion takes at a type is taken at its streaming type as well. -/
theorem Coercer.succeeds_streamed {s : Schema} (hs : s.CompleteOnly) (hc : s.Closed)
    (hg : s.Guarded) {t : Ty Authored} (ht : t.Complete) (hk : s.offersAll t = true)
    {eval : Evaluator} {v : Value} {path : Path}
    (h : (run ⟨s, eval, .quiet⟩ v t path).Succeeds) :
    (run ⟨s, eval, .quiet⟩ v t.toStreamed.toAuthored path).Succeeds := by
  have hstreamed : s.offersAll t.toStreamed.toAuthored = true :=
    Schema.offersAll_iff.2 fun r hr => Schema.offersAll_iff.1 hk r (mentions_of_streamed hr)
  rw [succeeds_run_iff hc hg (Schema.knows_of_offersAll hk)] at h
  rw [succeeds_run_iff hc hg (Schema.knows_of_offersAll hstreamed)]
  exact h.streamed hs ht false false

/-- A thread of posts: every post has a title that is needed and replies that form a thread again.
-/
def thread : Schema where
  target := .union [.aliasRef "Thread" .complete {}, .union [.classRef "Post" .complete false {},
    .classRef "Note" .complete false {}] none {}] none {}
  enums := [{ name := ⟨"Kind", none⟩, values := [⟨⟨"OPEN", some "open"⟩, none⟩] }]
  classes := [
    { name := ⟨"Note", none⟩
      fields := [⟨⟨"note", none⟩, .prim .float {}, none, false⟩] },
    { name := ⟨"Post", none⟩
      fields := [⟨⟨"title", none⟩, .prim .string ⟨[], { needed := true }⟩, none, false⟩,
        ⟨⟨"kind", none⟩, .enumRef "Kind" false ⟨[], { done := true }⟩, none, false⟩,
        ⟨⟨"replies", none⟩, .aliasRef "Thread" .complete {}, none, false⟩] }]
  recursiveClasses := ["Post"]
  aliases := [("Thread", .union [.list (.classRef "Post" .complete false {}) {}] (some {}) {})]

theorem completeOnly_thread : thread.CompleteOnly := by
  refine ⟨by decide, ?_⟩
  simp [thread, Complete, mapAnn, ann]

theorem guarded_thread : thread.Guarded := by
  intro name hcycle
  obtain ⟨other, ⟨e, he, hopens⟩, -⟩ := Relation.TransGen.head'_iff.1 hcycle
  have hmem := Entries.mem_of_find?_eq_some he
  simp only [thread, List.mem_singleton, Prod.mk.injEq] at hmem
  obtain ⟨-, rfl⟩ := hmem
  cases hopens with
  | member hm hopens =>
    rw [List.mem_singleton.1 hm] at hopens
    cases hopens

/-- A post without replies. -/
def reply : Value := .map [("title", .text "second"), ("kind", .enumOf "Kind" "OPEN")]

/-- A post with one reply. -/
def post : Value :=
  .map [("title", .text "first"), ("kind", .text "open"), ("replies", .list [reply])]

theorem admits_reply : thread.Admits reply (.classRef "Post" .complete false {}) := by
  refine .classRef rfl rfl fun f hf => ?_
  simp only [List.mem_cons, List.not_mem_nil, or_false] at hf
  rcases hf with rfl | rfl | rfl
  · exact .prim rfl
  · exact .enumRef rfl rfl rfl
  · exact .aliasRef rfl .unionNull

theorem admits_post : thread.Admits post thread.target := by
  have hpost : thread.Admits post (.classRef "Post" .complete false {}) := by
    refine .classRef rfl rfl fun f hf => ?_
    simp only [List.mem_cons, List.not_mem_nil, or_false] at hf
    rcases hf with rfl | rfl | rfl
    · exact .prim rfl
    · exact .enumRef rfl rfl rfl
    · refine .aliasRef rfl (.unionMember List.mem_cons_self (.list rfl fun x hx => ?_))
      rw [List.mem_singleton.1 hx]
      exact admits_reply
  exact .unionMember (List.mem_cons_of_mem _ List.mem_cons_self)
    (.unionMember List.mem_cons_self hpost)

theorem succeeds_streamed_post : thread.CompleteOnly ∧ thread.Closed ∧ thread.Guarded ∧
    thread.target.Complete ∧ thread.offersAll thread.target = true ∧
    (Coercer.run ⟨thread, fun _ _ => .ok false, .quiet⟩ post thread.target .root).Succeeds ∧
    (Coercer.run ⟨thread, fun _ _ => .ok false, .quiet⟩ post thread.target.toStreamed.toAuthored
      .root).Succeeds := by
  have hc : thread.Closed := Schema.closed_of_offersAll (by decide) (by decide)
  have ht : thread.target.Complete := rfl
  have hk : thread.offersAll thread.target = true := by decide
  have hrun : (Coercer.run ⟨thread, fun _ _ => .ok false, .quiet⟩ post thread.target
      .root).Succeeds :=
    (Coercer.succeeds_run_iff hc guarded_thread (Schema.knows_of_offersAll hk) post .root).2
      admits_post
  exact ⟨completeOnly_thread, hc, guarded_thread, ht, hk, hrun,
    Coercer.succeeds_streamed completeOnly_thread hc guarded_thread ht hk hrun⟩

end ShapeSchema
