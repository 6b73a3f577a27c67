import ShapeSchema.Proofs.Ty.Union

/-!
# Streaming types and back

A streaming type is `Stable` if turning it back to an authored type and streaming that again gives
the same type. The main result says for which authored types the streaming type is stable
(`roundTrip_iff`): a list, map, tuple or arrow that is both `done` and `needed` loses the flag
`needed` on the way, unless a union stands around it, and nothing else goes wrong.
-/

namespace ShapeSchema.Ty

/-- A streaming type that comes back from its authored type. -/
def Stable (inUnion : Bool) (s : Ty Streamed) : Prop := (s.unstream backAnn inUnion).stream inUnion = s

mutual

/-- Is every flag `needed` visible in the streaming type? On a list, map, tuple or arrow that arrives
whole it is not, except that inside a union it has no effect. -/
def regains (inUnion : Bool) : Ty Authored → Bool
  | list i a => if a.flags.done then inUnion || !a.flags.needed else regains false i
  | map k v a =>
    if a.flags.done then inUnion || !a.flags.needed else regains false k && regains false v
  | tuple is a => if a.flags.done then inUnion || !a.flags.needed else regainsAll false is
  | arrow ps r a =>
    if a.flags.done then inUnion || !a.flags.needed else regainsAll false ps && regains false r
  | union ms _ a => a.flags.done || regainsAll true ms
  | _ => true

def regainsAll (inUnion : Bool) : List (Ty Authored) → Bool
  | [] => true
  | t :: ts => regains inUnion t && regainsAll inUnion ts

end

theorem regainsAll_iff (inUnion : Bool) (ts : List (Ty Authored)) :
    regainsAll inUnion ts = true ↔ ∀ t ∈ ts, t.regains inUnion = true := by
  induction ts with
  | nil => simp [regainsAll]
  | cons t ts ih => rw [regainsAll, Bool.and_eq_true, ih, List.forall_mem_cons]

/-! ## Whole subtrees -/

theorem withAnn_ann {μ : Type} (t : Ty μ) : t.withAnn t.ann = t := by
  cases t <;> rfl

/-- A type whose references are to complete definitions. -/
def Complete {μ : Type} (t : Ty μ) : Prop := t.mapAnn ann (some .complete) = t

theorem complete_mapAnn {μ ν : Type} (f : Ty μ → ν) (t : Ty μ) :
    Complete (t.mapAnn f (some .complete)) := by
  have all : ∀ ts : List (Ty μ), (∀ t ∈ ts, Complete (t.mapAnn f (some .complete))) →
      (mapAnns f (some .complete) ts).map (mapAnn ann (some .complete))
        = mapAnns f (some .complete) ts := by
    intro ts h
    rw [mapAnns_eq_map, List.map_map]
    exact List.map_congr_left fun t ht => h t ht
  induction t using induct with
  | list i a hi => exact congrArg (list · _) hi
  | map k v a hk hv =>
    show map _ _ _ = map _ _ _
    rw [hk, hv]
    rfl
  | tuple is a h =>
    show tuple (mapAnns _ _ _) _ = tuple _ _
    rw [mapAnns_eq_map, all is h]
    rfl
  | arrow ps r a h hr =>
    show arrow (mapAnns _ _ _) _ _ = arrow _ _ _
    rw [mapAnns_eq_map, all ps h, hr]
    rfl
  | union ms null a h =>
    show union (mapAnns _ _ _) _ _ = union _ _ _
    rw [mapAnns_eq_map, all ms h]
    cases null <;> rfl
  | _ => rfl

theorem complete_withAnn {μ : Type} {t : Ty μ} (h : Complete t) (a : μ) : Complete (t.withAnn a) := by
  unfold Complete at h
  cases t <;> simp_all [mapAnn, withAnn, Complete, ann]

/-- Annotation of a node inside a whole subtree. -/
def keptAnn (t : Ty Authored) : Streamed := ⟨t.ann.constraints, t.ann.flags.done, t.ann.flags.state⟩

theorem mapAnn_unstream (inUnion : Bool) (s : Ty Streamed) :
    (s.unstream backAnn inUnion).mapAnn keptAnn (some .complete)
      = s.mapAnn ann (some .complete) := by
  have all : ∀ (b : Bool) (ts : List (Ty Streamed)),
      (∀ t ∈ ts, ∀ b, (unstream backAnn b t).mapAnn keptAnn (some .complete)
        = t.mapAnn ann (some .complete)) →
      mapAnns keptAnn (some .complete) (unstreamAll backAnn b ts)
        = mapAnns ann (some .complete) ts := by
    intro b ts h
    rw [mapAnns_eq_map, mapAnns_eq_map, unstreamAll_eq_map, List.map_map]
    exact List.map_congr_left fun t ht => h t ht b
  induction s using induct generalizing inUnion with
  | list i a hi => exact congrArg (list · a) (hi false)
  | map k v a hk hv =>
    show map _ _ _ = map _ _ _
    rw [hk, hv]
    rfl
  | tuple is a h => exact congrArg (tuple · a) (all false is h)
  | arrow ps r a h hr =>
    show arrow _ _ _ = arrow _ _ _
    rw [all false ps h, hr]
    rfl
  | union ms null a h =>
    show union _ _ _ = union _ _ _
    rw [all true ms h]
    cases null <;> rfl
  | _ => rfl

theorem complete_whole (t : Ty Authored) : Complete t.whole := complete_withAnn (complete_mapAnn _ t) _

theorem ann_whole (t : Ty Authored) :
    t.whole.ann = ⟨t.ann.constraints, true, t.ann.flags.state⟩ := by
  cases t <;> rfl

/-- A complete subtree that is done comes back whole. -/
theorem whole_unstream (inUnion : Bool) {s : Ty Streamed} (hs : Complete s) (hd : s.ann.done = true) :
    (s.unstream backAnn inUnion).whole = s := by
  have heq : (s.unstream backAnn inUnion).mapAnn keptAnn (some .complete) = s :=
    (mapAnn_unstream inUnion s).trans hs
  show (mapAnn keptAnn (some .complete) _).withAnn
    { (mapAnn keptAnn (some .complete) (s.unstream backAnn inUnion)).ann with done := true } = s
  rw [heq, ← hd]
  exact withAnn_ann s

/-- Lists, maps, tuples and arrows. -/
def isContainer {μ : Type} : Ty μ → Bool
  | list _ _ | map _ _ _ | tuple _ _ | arrow _ _ _ => true
  | _ => false

/-- Does turning a type back mark its root as needed? -/
def shownNeeded (inUnion : Bool) : Ty Streamed → Bool
  | prim p _ => !inUnion && p != .null
  | list _ _ | map _ _ _ | tuple _ _ | arrow _ _ _ => false
  | union _ null _ => !inUnion && null.isNone
  | _ => !inUnion

theorem ann_unstream (inUnion : Bool) (s : Ty Streamed) :
    (s.unstream backAnn inUnion).ann = backAnn (s.shownNeeded inUnion) s.ann := by
  cases s <;> rfl

theorem isNull_unstream {μ ν : Type} (back : Bool → μ → ν) (inUnion : Bool) (t : Ty μ) :
    (t.unstream back inUnion).isNull = t.isNull := by
  cases t with
  | prim p a => cases p <;> rfl
  | _ => rfl

theorem stream_of_done (inUnion : Bool) {t : Ty Authored} (h : t.ann.flags.done = true) :
    t.stream inUnion = wholeOf inUnion t := by
  cases t with
  | prim p a => cases p <;> rw [stream] <;> first | exact if_pos h | rintro ⟨⟩
  | _ => rw [stream]; exact if_pos h

theorem stream_unstream_of_done (inUnion : Bool) {s : Ty Streamed} (hs : Complete s)
    (hd : s.ann.done = true) : (s.unstream backAnn inUnion).stream inUnion
      = if inUnion || s.shownNeeded inUnion || s.isNull then s else optionalOf s {} := by
  rw [stream_of_done inUnion (by rw [ann_unstream]; exact hd), wholeOf, ann_unstream,
    isNull_unstream, whole_unstream inUnion hs hd]
  rfl

/-- A complete subtree that is done comes back, unless it is a bare container. -/
theorem stable_iff_of_done (inUnion : Bool) {s : Ty Streamed} (hs : Complete s)
    (hd : s.ann.done = true) : Stable inUnion s ↔ (inUnion || !s.isContainer) = true := by
  unfold Stable
  rw [stream_unstream_of_done inUnion hs hd]
  cases inUnion with
  | true => simp
  | false =>
    cases s with
    | prim p a => cases p <;> simp [shownNeeded, isNull, nullAnn?, isContainer]
    | union ms null a => cases null <;> simp [shownNeeded, optionalOf, isContainer]
    | _ => simp [shownNeeded, isNull, nullAnn?, optionalOf, isContainer]

/-! ## Unions -/

theorem isUnion_stream (t : Ty Authored) : (t.stream true).isUnion = t.isUnion := by
  by_cases hd : t.ann.flags.done = true
  · rw [stream_of_done true hd]
    cases t <;> rfl
  · cases t with
    | prim p a =>
      cases p <;> rw [stream, if_neg (show ¬ a.flags.done = true from hd)] <;>
        simp [isUnion, streamLeaf]
    | _ => rw [stream]; exact congrArg isUnion (if_neg hd)

theorem isNull_stream (t : Ty Authored) : (t.stream true).isNull = t.isNull := by
  by_cases hd : t.ann.flags.done = true
  · rw [stream_of_done true hd]
    cases t with
    | prim p a => cases p <;> rfl
    | _ => rfl
  · cases t with
    | prim p a =>
      cases p <;> rw [stream, if_neg (show ¬ a.flags.done = true from hd)] <;>
        simp [isNull, nullAnn?, streamLeaf]
    | _ => rw [stream]; exact congrArg isNull (if_neg hd)

theorem keepsApart_stream {t : Ty Authored} (h : t.isUnion = true) :
    keepsApart (t.stream true).ann
      = (Metadata.hasChecks t.ann || t.ann.flags.done || t.ann.flags.state) := by
  cases t with
  | union ms null a =>
    by_cases hd : a.flags.done = true
    · have hd' : (union ms null a).ann.flags.done = true := hd
      rw [stream_of_done true hd', wholeOf, if_pos (by rfl), ann_whole]
      simp [keepsApart, hd']
    · rw [stream, if_neg hd]
      simp [keepsApart, ann, passOn, hd]
      rfl
  | _ => cases h

theorem isUnion_unstream (inUnion : Bool) (s : Ty Streamed) :
    (s.unstream backAnn inUnion).isUnion = s.isUnion := by
  cases s <;> rfl

theorem flatIn_again {s : Ty Streamed} (h : FlatIn keepsApart s) :
    FlatIn keepsApart ((s.unstream backAnn true).stream true) := by
  intro hu
  rw [isUnion_stream] at hu
  rw [keepsApart_stream hu, ann_unstream]
  rw [isUnion_unstream] at hu
  exact h hu

theorem isNull_again (s : Ty Streamed) :
    ((s.unstream backAnn true).stream true).isNull = s.isNull := by
  rw [isNull_stream, isNull_unstream]

theorem filter_of_nonNull {ms : List (Ty Streamed)} (h : ∀ m ∈ ms, m.isNull = false) :
    ms.filter (fun m => !m.isNull) = ms :=
  List.filter_eq_self.2 fun m hm => by rw [h m hm]; rfl

theorem findSome_nullAnn {ms : List (Ty Streamed)} (h : ∀ m ∈ ms, m.isNull = false) :
    ms.findSome? nullAnn? = none :=
  List.findSome?_eq_none_iff.2 fun m hm => by
    have := h m hm
    unfold isNull at this
    simpa using this

theorem passOn_backAnn (needed : Bool) {a : Streamed} (ha : a.done = false) :
    passOn (backAnn needed a) = a := by
  obtain ⟨cs, done, state⟩ := a
  rw [show done = false from ha]
  rfl

/-- Streaming a union again streams its members again. -/
theorem again_union {inUnion : Bool} {ms : List (Ty Streamed)} {null : Option Streamed}
    {a : Streamed} (ha : a.done = false) (flat : ∀ m ∈ ms, FlatIn keepsApart m)
    (nonNull : ∀ m ∈ ms, m.isNull = false) :
    ((union ms null a).unstream backAnn inUnion).stream inUnion
      = union (dedupe (ms.map fun m => (m.unstream backAnn true).stream true)) null a := by
  have hflat : ∀ m ∈ ms.map fun m => (m.unstream backAnn true).stream true,
      FlatIn keepsApart m := by
    intro m hm
    obtain ⟨n, hn, rfl⟩ := List.mem_map.1 hm
    exact flatIn_again (flat n hn)
  have hnull : ∀ m ∈ ms.map fun m => (m.unstream backAnn true).stream true,
      m.isNull = false := by
    intro m hm
    obtain ⟨n, hn, rfl⟩ := List.mem_map.1 hm
    rw [isNull_again]
    exact nonNull n hn
  rw [unstream, stream, if_neg (by simp [backAnn, ha]), unstreamAll_eq_map,
    streamAll_eq_map, List.map_map]
  have hmap : ms.map (stream true ∘ unstream backAnn true)
      = ms.map fun m => (m.unstream backAnn true).stream true := rfl
  rw [hmap, flattenAll_of_flatIn hflat]
  simp only [filter_of_nonNull hnull]
  congr 1
  · unfold streamNull
    rw [findSome_nullAnn hnull]
    cases null with
    | none => cases inUnion <;> rfl
    | some n =>
      obtain ⟨cs, done, state⟩ := n
      cases done <;> rfl
  · exact passOn_backAnn _ ha

/-- A union comes back if its members do. -/
theorem stable_union_iff {inUnion : Bool} {ms : List (Ty Streamed)} {null : Option Streamed}
    {a : Streamed} (ha : a.done = false) (flat : ∀ m ∈ ms, FlatIn keepsApart m)
    (nonNull : ∀ m ∈ ms, m.isNull = false) (hap : Apart ms) :
    Stable inUnion (union ms null a) ↔ ∀ m ∈ ms, Stable true m := by
  unfold Stable
  rw [again_union ha flat nonNull]
  constructor
  · intro h
    injection h with h
    -- deduplication has dropped nothing, since no member is lost
    have hlen := congrArg List.length h
    have hmap := (dedupe_sublist _).eq_of_length (by rw [hlen, List.length_map])
    rw [h] at hmap
    intro m hm
    obtain ⟨i, hi, rfl⟩ := List.getElem_of_mem hm
    have := congrArg (·[i]?) hmap
    simp [hi] at this
    exact this.symm
  · intro h
    have hmap : ms.map (fun m => (m.unstream backAnn true).stream true) = ms :=
      (List.map_congr_left h).trans (List.map_id ms)
    rw [hmap, dedupe_of_apart hap]

theorem stable_single {b : Bool} {s : Ty Streamed} {null : Option Streamed} {a : Streamed}
    (ha : a.done = false) (hu : s.isUnion = false) (hn : s.isNull = false) (hs : Stable true s) :
    Stable b (union [s] null a) := by
  refine (stable_union_iff ha (fun m hm => ?_) (fun m hm => ?_) (List.pairwise_singleton _ s)).2
    fun m hm => ?_
  · rw [List.mem_singleton.1 hm]
    intro h
    rw [hu] at h
    cases h
  · rwa [List.mem_singleton.1 hm]
  · rwa [List.mem_singleton.1 hm]

/-! ## Leaves -/

/-- A leaf and its authored form; `whole` tells that it is done once it is there. -/
structure IsLeaf (whole : Bool) (build : Streamed → Ty Streamed)
    (authored : Authored → Ty Authored) : Prop where
  unstream : ∀ b a, (build a).unstream backAnn b = authored (backAnn (!b) a)
  stream : ∀ b a, a.flags.done = false →
    (authored a).stream b = streamLeaf a (b || a.flags.needed) whole build
  ann : ∀ a, (build a).ann = a
  complete : whole = true → ∀ a, Complete (build a)
  plain : ∀ a, (build a).isUnion = false ∧ (build a).isNull = false ∧ (build a).isContainer = false

theorem IsLeaf.stable_build {w : Bool} {build : Streamed → Ty Streamed}
    {authored : Authored → Ty Authored} (h : IsLeaf w build authored) (b : Bool)
    (cs : List Constraint) (state : Bool) : Stable b (build ⟨cs, w, state⟩) := by
  cases w with
  | true =>
    refine (stable_iff_of_done b (h.complete rfl _) (by rw [h.ann])).2 ?_
    rw [(h.plain _).2.2]
    cases b <;> rfl
  | false =>
    show (Ty.unstream backAnn b (build _)).stream b = _
    rw [h.unstream, h.stream b _ rfl]
    cases b <;> rfl

theorem optionalOf_of_plain {s : Ty Streamed} (hu : s.isUnion = false) (hn : s.isNull = false)
    (a : Streamed) : optionalOf s a = union [s] (some a) a := by
  cases s with
  | prim p b => cases p <;> first | rfl | cases hn
  | union ms null b => cases hu
  | _ => rfl

theorem IsLeaf.stable_streamLeaf {w : Bool} {build : Streamed → Ty Streamed}
    {authored : Authored → Ty Authored} (h : IsLeaf w build authored) (b : Bool) (a : Authored) :
    Stable b (streamLeaf a (b || a.flags.needed) w build) := by
  unfold streamLeaf
  split
  · exact h.stable_build b a.constraints a.flags.state
  · obtain ⟨hu, hn, -⟩ := h.plain ⟨a.constraints, w, false⟩
    rw [optionalOf_of_plain hu hn]
    exact stable_single rfl hu hn (h.stable_build true a.constraints false)

theorem isLeaf_top : IsLeaf false top top :=
  ⟨fun _ _ => rfl, fun b a h => by rw [stream, if_neg (by simp [h])], fun _ => rfl,
    (fun h => absurd h Bool.false_ne_true), fun _ => ⟨rfl, rfl, rfl⟩⟩

theorem isLeaf_prim {p : Prim} (hp : p ≠ .null) : IsLeaf (p != .string) (prim p) (prim p) where
  unstream b a := by
    rw [Ty.unstream, bne_iff_ne.2 hp, Bool.and_true]
  stream b a h := by
    cases p <;> first | exact absurd rfl hp | (rw [Ty.stream, if_neg (by simp [h])]; simp)
  ann _ := rfl
  complete _ _ := rfl
  plain a := by
    cases p <;> first | exact absurd rfl hp | exact ⟨rfl, rfl, rfl⟩

theorem isLeaf_enumRef (n : String) (d : Bool) : IsLeaf true (enumRef n d) (enumRef n d) :=
  ⟨fun _ _ => rfl, fun b a h => by rw [stream, if_neg (by simp [h])], fun _ => rfl,
    fun _ _ => rfl, fun _ => ⟨rfl, rfl, rfl⟩⟩

theorem isLeaf_literal (l : Literal) : IsLeaf true (literal l) (literal l) :=
  ⟨fun _ _ => rfl, fun b a h => by rw [stream, if_neg (by simp [h])], fun _ => rfl,
    fun _ _ => rfl, fun _ => ⟨rfl, rfl, rfl⟩⟩

theorem isLeaf_classRef (n : String) (d : Bool) :
    IsLeaf false (classRef n .partialValue d) (classRef n .partialValue d) :=
  ⟨fun _ _ => rfl, fun b a h => by rw [stream, if_neg (by simp [h])], fun _ => rfl,
    (fun h => absurd h Bool.false_ne_true), fun _ => ⟨rfl, rfl, rfl⟩⟩

theorem isLeaf_aliasRef (n : String) :
    IsLeaf false (aliasRef n .partialValue) (aliasRef n .partialValue) :=
  ⟨fun _ _ => rfl, fun b a h => by rw [stream, if_neg (by simp [h])], fun _ => rfl,
    (fun h => absurd h Bool.false_ne_true), fun _ => ⟨rfl, rfl, rfl⟩⟩

/-! ## Top theorems -/

theorem isContainer_whole (t : Ty Authored) : t.whole.isContainer = t.isContainer := by
  cases t <;> rfl

theorem isNull_whole (t : Ty Authored) : t.whole.isNull = t.isNull := by
  cases t with
  | prim p a => cases p <;> rfl
  | _ => rfl

theorem regains_of_done (b : Bool) {t : Ty Authored} (h : t.ann.flags.done = true) :
    t.regains b = (b || !t.isContainer || !t.ann.flags.needed) := by
  cases t <;> simp_all [regains, isContainer, ann]

theorem stable_optional_whole (t : Ty Authored) (hn : t.isNull = false) :
    Stable false (optionalOf t.whole {}) := by
  have hd : t.whole.ann.done = true := by rw [ann_whole]
  have hc := complete_whole t
  have hn' : t.whole.isNull = false := by rw [isNull_whole, hn]
  generalize t.whole = s at hd hc hn'
  by_cases hu : s.isUnion = true
  · cases s with
    | union ms null a =>
      cases null with
      | none =>
        have hd' : (union ms (some {}) a).ann.done = true := hd
        refine (stable_iff_of_done false ?_ hd').2 rfl
        unfold Complete at hc ⊢
        injection hc with hms
        show union _ _ _ = union _ _ _
        rw [hms]
        rfl
      | some n => exact (stable_iff_of_done false hc hd).2 rfl
    | _ => cases hu
  · have hu' : s.isUnion = false := Bool.eq_false_iff.2 hu
    rw [optionalOf_of_plain hu' hn']
    exact stable_single rfl hu' hn' ((stable_iff_of_done true hc hd).2 rfl)

theorem stable_stream_of_done (b : Bool) {t : Ty Authored} (h : t.ann.flags.done = true) :
    Stable b (t.stream b) ↔ t.regains b = true := by
  rw [stream_of_done b h, regains_of_done b h, wholeOf]
  split
  · next hb =>
    rw [stable_iff_of_done b (complete_whole t) (by rw [ann_whole]), isContainer_whole]
    cases b with
    | true => simp
    | false =>
      cases t with
      | prim p a => simp [isContainer]
      | _ => simp_all [isContainer, isNull, nullAnn?]
  · next hb =>
    simp only [Bool.or_eq_true, not_or, Bool.not_eq_true] at hb
    obtain ⟨⟨rfl, hneeded⟩, hn⟩ := hb
    simp [hneeded, stable_optional_whole t hn]

theorem stable_null (b : Bool) (n : Streamed) : Stable b (prim .null n) := by
  obtain ⟨cs, done, state⟩ := n
  cases done <;> (unfold Stable; rw [unstream, stream]; cases b <;> rfl)

/-- Each of some types comes back on its own. -/
theorem again_all_iff (ts : List (Ty Streamed)) :
    streamAll false (unstreamAll backAnn false ts) = ts ↔ ∀ t ∈ ts, Stable false t := by
  rw [unstreamAll_eq_map, streamAll_eq_map, List.map_map]
  constructor
  · intro h
    exact List.map_inj_left.1 (h.trans (List.map_id ts).symm)
  · intro h
    exact (List.map_congr_left h).trans (List.map_id ts)

theorem stable_list_iff {b : Bool} {i : Ty Streamed} {a : Streamed} (ha : a.done = false) :
    Stable b (list i a) ↔ Stable false i := by
  unfold Stable
  rw [unstream, stream, if_neg (by simp [backAnn, ha]), passOn_backAnn _ ha, list.injEq]
  exact and_iff_left rfl

theorem stable_map_iff {b : Bool} {k v : Ty Streamed} {a : Streamed} (ha : a.done = false) :
    Stable b (map k v a) ↔ Stable false k ∧ Stable false v := by
  unfold Stable
  rw [unstream, stream, if_neg (by simp [backAnn, ha]), passOn_backAnn _ ha, map.injEq]
  simp

theorem stable_tuple_iff {b : Bool} {is : List (Ty Streamed)} {a : Streamed}
    (ha : a.done = false) : Stable b (tuple is a) ↔ ∀ t ∈ is, Stable false t := by
  rw [← again_all_iff]
  unfold Stable
  rw [unstream, stream, if_neg (by simp [backAnn, ha]), passOn_backAnn _ ha, tuple.injEq]
  exact and_iff_left rfl

theorem stable_arrow_iff {b : Bool} {ps : List (Ty Streamed)} {r : Ty Streamed} {a : Streamed}
    (ha : a.done = false) :
    Stable b (arrow ps r a) ↔ (∀ t ∈ ps, Stable false t) ∧ Stable false r := by
  rw [← again_all_iff]
  unfold Stable
  rw [unstream, stream, if_neg (by simp [backAnn, ha]), passOn_backAnn _ ha, arrow.injEq]
  simp

theorem stable_streamAll_iff {ts : List (Ty Authored)}
    (h : ∀ t ∈ ts, Stable false (t.stream false) ↔ t.regains false = true) :
    (∀ s ∈ streamAll false ts, Stable false s) ↔ regainsAll false ts = true := by
  rw [streamAll_eq_map, List.forall_mem_map, regainsAll_iff]
  exact forall₂_congr h

/-- The members of the streaming union of some types. -/
def streamMembers (ts : List (Ty Authored)) : List (Ty Streamed) :=
  dedupe ((flattenAll keepsApart (streamAll true ts)).filter fun m => !m.isNull)

theorem mem_streamMembers {ts : List (Ty Authored)} {m : Ty Streamed} :
    m ∈ streamMembers ts ↔
      (∃ t ∈ ts, m ∈ flatten keepsApart (t.stream true)) ∧ m.isNull = false := by
  unfold streamMembers
  rw [mem_dedupe Streamed.legible, List.mem_filter, flattenAll_eq_flatMap, streamAll_eq_map,
    List.mem_flatMap]
  simp

theorem flatIn_streamMembers {ts : List (Ty Authored)} :
    ∀ m ∈ streamMembers ts, FlatIn keepsApart m := by
  intro m hm
  obtain ⟨⟨t, -, ht⟩, -⟩ := mem_streamMembers.1 hm
  exact flatIn_flatten keepsApart _ m ht

theorem eq_null_of_isNull {μ : Type} {t : Ty μ} (h : t.isNull = true) : ∃ n, t = prim .null n := by
  cases t with
  | prim p a =>
    cases p with
    | null => exact ⟨a, rfl⟩
    | _ => cases h
  | _ => cases h

theorem stable_streamMembers_iff {ts : List (Ty Authored)}
    (h : ∀ t ∈ ts, (∀ m ∈ flatten keepsApart (t.stream true), Stable true m)
      ↔ t.regains true = true) :
    (∀ m ∈ streamMembers ts, Stable true m) ↔ regainsAll true ts = true := by
  rw [regainsAll_iff, ← forall₂_congr h]
  constructor
  · intro hs t ht m hm
    by_cases hn : m.isNull = true
    · obtain ⟨n, rfl⟩ := eq_null_of_isNull hn
      exact stable_null true n
    · exact hs m (mem_streamMembers.2 ⟨⟨t, ht, hm⟩, Bool.eq_false_iff.2 hn⟩)
  · intro hs m hm
    obtain ⟨⟨t, ht, hmt⟩, -⟩ := mem_streamMembers.1 hm
    exact hs t ht m hmt

theorem stream_union (b : Bool) (ms : List (Ty Authored)) (null : Option Authored) (a : Authored)
    (hd : a.flags.done = false) :
    ∃ null', (union ms null a).stream b = union (streamMembers ms) null' (passOn a) := by
  rw [stream, if_neg (by simp [hd])]
  exact ⟨_, rfl⟩

theorem flatIn_stream {t : Ty Authored} (h : t.isUnion = false ∨ t.ann.flags.done = true) :
    FlatIn keepsApart (t.stream true) := by
  intro hu
  rw [isUnion_stream] at hu
  rcases h with h | h
  · rw [h] at hu
    cases hu
  · rw [keepsApart_stream hu, h, Bool.or_true, Bool.true_or]

/-- What streams as one member of a union comes back there as it does anywhere else. -/
theorem stable_stream_of_bare {t : Ty Authored} (ht : t.isUnion = false)
    (h : t.ann.flags.done = false → ∀ b, Stable b (t.stream b) ↔ t.regains b = true) :
    (∀ b, Stable b (t.stream b) ↔ t.regains b = true) ∧
      ((∀ m ∈ flatten keepsApart (t.stream true), Stable true m) ↔ t.regains true = true) := by
  have hs : ∀ b, Stable b (t.stream b) ↔ t.regains b = true := by
    intro b
    by_cases hd : t.ann.flags.done = true
    · exact stable_stream_of_done b hd
    · exact h (Bool.eq_false_iff.2 hd) b
  refine ⟨hs, ?_⟩
  rw [flatten_of_flatIn (flatIn_stream (.inl ht)), List.forall_mem_singleton]
  exact hs true

/-- A union comes back if its members do, and what it contributes to a union around it as well. -/
theorem stable_stream_union {ms : List (Ty Authored)} {null : Option Authored} {a : Authored}
    (hms : (∀ m ∈ streamMembers ms, Stable true m) ↔ regainsAll true ms = true) :
    (∀ b, Stable b ((union ms null a).stream b) ↔ (union ms null a).regains b = true) ∧
      ((∀ m ∈ flatten keepsApart ((union ms null a).stream true), Stable true m)
        ↔ (union ms null a).regains true = true) := by
  by_cases hd : (union ms null a).ann.flags.done = true
  · refine ⟨fun b => stable_stream_of_done b hd, ?_⟩
    rw [flatten_of_flatIn (flatIn_stream (.inr hd)), List.forall_mem_singleton]
    exact stable_stream_of_done true hd
  have hd' : a.flags.done = false := Bool.eq_false_iff.2 hd
  have hr : ∀ b, (union ms null a).regains b = regainsAll true ms := by
    intro b
    rw [regains, hd', Bool.false_or]
  have hstable : ∀ b, Stable b ((union ms null a).stream b)
      ↔ (union ms null a).regains b = true := by
    intro b
    obtain ⟨null', he⟩ := stream_union b ms null a hd'
    rw [he, hr, ← hms]
    exact stable_union_iff rfl flatIn_streamMembers
      (fun m hm => (mem_streamMembers.1 hm).2) (apart_dedupe _)
  refine ⟨hstable, ?_⟩
  by_cases hk : FlatIn keepsApart ((union ms null a).stream true)
  · rw [flatten_of_flatIn hk, List.forall_mem_singleton]
    exact hstable true
  -- a union that is not kept apart gives its members away, and its null
  obtain ⟨null', he⟩ := stream_union true ms null a hd'
  have hk' : ¬ keepsApart (passOn a) = true := by
    intro h
    refine hk fun _ => ?_
    rw [he]
    exact h
  rw [he, hr, ← hms, flatten, if_neg hk', flattenAll_of_flatIn flatIn_streamMembers]
  constructor
  · exact fun h m hm => h m (List.mem_append_left _ hm)
  · intro h m hm
    rcases List.mem_append.1 hm with hm | hm
    · exact h m hm
    · obtain ⟨n, -, rfl⟩ := List.mem_map.1 hm
      exact stable_null true n

/-- A type's streaming type comes back exactly if every flag `needed` is visible in it. Inside a
union, that is so for each member that the type contributes. -/
theorem stable_stream (t : Ty Authored) : (∀ b, Stable b (t.stream b) ↔ t.regains b = true) ∧
    ((∀ m ∈ flatten keepsApart (t.stream true), Stable true m) ↔ t.regains true = true) := by
  induction t using induct with
  | top a =>
    refine stable_stream_of_bare rfl fun hd b => iff_of_true ?_ rfl
    rw [isLeaf_top.stream b a hd]
    exact isLeaf_top.stable_streamLeaf b a
  | prim p a =>
    refine stable_stream_of_bare rfl fun hd b => iff_of_true ?_ rfl
    by_cases hp : p = .null
    · have hd' : ¬ a.flags.done = true := Bool.eq_false_iff.1 hd
      rw [hp, stream, if_neg hd']
      exact stable_null b (passOn a)
    · rw [(isLeaf_prim hp).stream b a hd]
      exact (isLeaf_prim hp).stable_streamLeaf b a
  | enumRef n d a =>
    refine stable_stream_of_bare rfl fun hd b => iff_of_true ?_ rfl
    rw [(isLeaf_enumRef n d).stream b a hd]
    exact (isLeaf_enumRef n d).stable_streamLeaf b a
  | literal l a =>
    refine stable_stream_of_bare rfl fun hd b => iff_of_true ?_ rfl
    rw [(isLeaf_literal l).stream b a hd]
    exact (isLeaf_literal l).stable_streamLeaf b a
  | classRef n m d a =>
    refine stable_stream_of_bare rfl fun hd b => iff_of_true ?_ rfl
    have hd' : ¬ a.flags.done = true := Bool.eq_false_iff.1 hd
    rw [stream, if_neg hd']
    exact (isLeaf_classRef n d).stable_streamLeaf b a
  | list i a hi =>
    refine stable_stream_of_bare rfl fun hd b => ?_
    have hd' : ¬ a.flags.done = true := Bool.eq_false_iff.1 hd
    rw [stream, if_neg hd', stable_list_iff rfl, regains, if_neg hd']
    exact hi.1 false
  | map k v a hk hv =>
    refine stable_stream_of_bare rfl fun hd b => ?_
    have hd' : ¬ a.flags.done = true := Bool.eq_false_iff.1 hd
    rw [stream, if_neg hd', stable_map_iff rfl, regains, if_neg hd', Bool.and_eq_true]
    exact and_congr (hk.1 false) (hv.1 false)
  | tuple is a h =>
    refine stable_stream_of_bare rfl fun hd b => ?_
    have hd' : ¬ a.flags.done = true := Bool.eq_false_iff.1 hd
    rw [stream, if_neg hd', stable_tuple_iff rfl, regains, if_neg hd']
    exact stable_streamAll_iff fun t ht => (h t ht).1 false
  | aliasRef n m a =>
    refine stable_stream_of_bare rfl fun hd b => iff_of_true ?_ rfl
    have hd' : ¬ a.flags.done = true := Bool.eq_false_iff.1 hd
    rw [stream, if_neg hd']
    exact (isLeaf_aliasRef n).stable_streamLeaf b a
  | arrow ps r a h hr =>
    refine stable_stream_of_bare rfl fun hd b => ?_
    have hd' : ¬ a.flags.done = true := Bool.eq_false_iff.1 hd
    rw [stream, if_neg hd', stable_arrow_iff rfl, regains, if_neg hd', Bool.and_eq_true]
    exact and_congr (stable_streamAll_iff fun t ht => (h t ht).1 false) (hr.1 false)
  | union ms null a h => exact stable_stream_union (stable_streamMembers_iff fun t ht => (h t ht).2)

/-- Streaming, turning back and streaming again gives the streaming type if and only if every flag
`needed` is visible in that type: no list, map, tuple or arrow is both `done` and `needed`, except
below another `done` node or as a member of a union. -/
theorem same_roundTrip_iff (t : Ty Authored) :
    t.toStreamed.toAuthored.toStreamed.same t.toStreamed = true ↔ t.regains false = true :=
  (same_iff Streamed.legible).trans ((stable_stream t).1 false)

/-- A needed list that arrives whole becomes optional on the way. -/
theorem roundTrip_list_differs :
    (list (prim .int {}) ⟨[], { needed := true, done := true }⟩).toStreamed.toAuthored.toStreamed.same
      (list (prim .int {}) ⟨[], { needed := true, done := true }⟩).toStreamed = false := by
  refine Bool.eq_false_iff.2 fun h => ?_
  have hstable := (same_iff Streamed.legible).1 h
  exact absurd (((stable_stream _).1 false).1 hstable) (by decide)

end ShapeSchema.Ty
