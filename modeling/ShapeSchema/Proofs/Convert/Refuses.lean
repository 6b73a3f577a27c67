import ShapeSchema.Proofs.Convert.Placed

/-!
# What the writer refuses

For a codec-free shape whose schema was built, writing returns exactly if the writer takes the value
at every place that it comes to, and else a promise is broken, unless the message about an unknown
variant has no text to show. But it takes more than the shape asks for: a value that is written is
well typed at every depth exactly if no place is wrong in a way that the writer leaves out
(`write_wellTyped`).

The induction is on the weight of the value; a step (`judged_step`) goes from the parts of a place
to the place.
-/

namespace ShapeSchema

/-! ## Judgements -/

/-- A run returns exactly if `R` holds. Otherwise a promise is broken, or the run breaks off for want
of a text, which happens only if `M` holds. -/
inductive Judges {α : Type} (R M : Prop) : Except Fault α → Prop where
  | returns (a : α) : R → Judges R M (.ok a)
  | refuses (x : Violation) : ¬ R → Judges R M (.error (.violation x))
  | breaksOff : ¬ R → M → Judges R M (.error .unspeakable)

section
variable {α β : Type} {R R' M M' : Prop} {run : Except Fault α}

theorem Judges.congr (h : Judges R M run) (hR : R ↔ R') (hM : M → M') : Judges R' M' run := by
  cases h with
  | returns a hr => exact .returns a (hR.1 hr)
  | refuses x hr => exact .refuses x (mt hR.2 hr)
  | breaksOff hr hm => exact .breaksOff (mt hR.2 hr) (hM hm)

theorem Judges.map (h : Judges R M run) (f : α → β) : Judges R M (f <$> run) := by
  cases h with
  | returns a hr => exact .returns (f a) hr
  | refuses x hr => exact .refuses x hr
  | breaksOff hr hm => exact .breaksOff hr hm

theorem Judges.bind {f : α → Except Fault β} (h : Judges R M run)
    (hf : ∀ a, run = .ok a → Judges R' M' (f a)) : Judges (R ∧ R') (M ∨ M') (run >>= f) := by
  cases h with
  | returns a hr => exact (hf a rfl).congr (and_iff_right hr).symm .inr
  | refuses x hr => exact .refuses x fun h => hr h.1
  | breaksOff hr hm => exact .breaksOff (fun h => hr h.1) (.inl hm)

theorem judges_violate {breach : Breach} {path : Path} (h : ¬ R) :
    Judges R M (violate breach path : Except Fault α) := .refuses ⟨breach, path⟩ h

theorem judges_mapM {R M : α → Prop} {f : α → Except Fault β} {xs : List α}
    (h : ∀ x ∈ xs, Judges (R x) (M x) (f x)) :
    Judges (∀ x ∈ xs, R x) (∃ x ∈ xs, M x) (xs.mapM f) := by
  induction xs with
  | nil => exact .returns [] (by simp)
  | cons x xs ih =>
    rw [List.mapM_cons]
    have hrest := ih fun y hy => h y (List.mem_cons_of_mem x hy)
    refine ((h x List.mem_cons_self).bind fun y _ => hrest.map (y :: ·)).congr ?_ ?_
    · rw [List.forall_mem_cons]
    · rw [List.exists_mem_cons_iff]
      exact id

theorem judges_mapM_attach {R M : α → Prop} {xs : List α} {f : { x // x ∈ xs } → Except Fault β}
    (h : ∀ p, Judges (R p.val) (M p.val) (f p)) :
    Judges (∀ x ∈ xs, R x) (∃ x ∈ xs, M x) (xs.attach.mapM f) :=
  (judges_mapM fun p _ => h p).congr
    ⟨fun hr x hx => hr ⟨x, hx⟩ (List.mem_attach xs _), fun hr p _ => hr p.val p.property⟩
    fun ⟨p, _, hm⟩ => ⟨p.val, p.property, hm⟩

theorem judges_mapM_attach_zipIdx {R M : α → Prop} {xs : List α}
    {f : { x // x ∈ xs } × Nat → Except Fault β}
    (h : ∀ p, Judges (R p.1.val) (M p.1.val) (f p)) :
    Judges (∀ x ∈ xs, R x) (∃ x ∈ xs, M x) (xs.attach.zipIdx.mapM f) := by
  refine (judges_mapM fun p _ => h p).congr ⟨fun hr x hx => ?_, fun hr p _ => hr _ p.1.property⟩
    fun ⟨p, _, hm⟩ => ⟨p.1.val, p.1.property, hm⟩
  have hmem : (⟨x, hx⟩ : { x // x ∈ xs }) ∈ xs.attach.zipIdx.map Prod.fst := by
    rw [List.zipIdx_map_fst]
    exact List.mem_attach xs _
  obtain ⟨p, hp, hpx⟩ := List.mem_map.1 hmem
  have := hr p hp
  rwa [hpx] at this

end

namespace Converter

open Builder Place

/-- Writing at a place is judged by what holds of the place. -/
def JudgedBy (c : Converter) (R M : Place → Prop) (p : Place) : Prop :=
  ∀ ctx path, Judges (R p) (M p) (c.writeAs p.manner ctx p.id p.value path)

section
variable {c : Converter} {R M : Place → Prop} {id sid : ShapeId} {v : Native} {path : Path}

/-! ## Scalars -/

theorem judges_writeScalar (x : Scalar) (M : Prop) : Judges (x.Takes v) M (writeScalar x v path) := by
  by_cases hx : x.isInteger = true
  · rw [Scalar.takes_integer hx]
    cases hn : v.toInt? with
    | none =>
      rw [writeScalar_of_toInt_none hx hn]
      exact judges_violate (by simp)
    | some n =>
      rw [writeScalar_of_toInt hx hn, writeInt]
      split
      · next h =>
        rw [Bool.and_eq_true] at h
        exact .returns _ ⟨n, rfl, h⟩
      · next h =>
        refine judges_violate ?_
        rintro ⟨m, hm, h'⟩
        cases hm
        exact h (by rw [h'.1, h'.2]; rfl)
  · cases x with
    | bool | char | string | f32 | f64 =>
      cases v <;> first
        | exact .returns _ ⟨_, rfl⟩
        | exact judges_violate (by rintro ⟨_, ⟨⟩⟩)
    | unit => cases v <;> exact .returns _ trivial
    | _ => exact absurd rfl hx

theorem judges_writeIntAs (repr : IntRepr) (ident : String) (M : Prop) :
    Judges (repr.Takes v) M (writeIntAs repr ident v path) := by
  unfold writeIntAs IntRepr.Takes
  cases hn : v.toInt? with
  | none => exact judges_violate (by simp)
  | some n =>
    cases repr with
    | text => exact .returns _ ⟨n, rfl, nofun⟩
    | int64 =>
      simp only
      split
      · next h => exact .returns _ ⟨n, rfl, fun _ => h⟩
      · next h =>
        refine judges_violate ?_
        rintro ⟨m, hm, h'⟩
        cases hm
        exact h (h' trivial)

theorem judges_keyText (k : Native) (M : Prop) :
    Judges (∃ t, keyText k .root = .ok t) M (keyText k path) := by
  unfold keyText
  cases k with
  | text | number | big | bool => exact .returns _ ⟨_, rfl⟩
  | _ => exact judges_violate (by rintro ⟨_, ⟨⟩⟩)

/-! ## Lists -/

theorem judges_items {m : Manner} {inner : ShapeId} {items : List Native}
    {f : { x // x ∈ items } × Nat → Except Fault Value} (hitems : v.items? = some items)
    (hf : ∀ p, Judges (R ⟨m, inner, p.1.val⟩) (M ⟨m, inner, p.1.val⟩) (f p)) :
    let parts := v.items?.elim [] fun items => items.map (Place.mk m inner)
    Judges (v.items?.isSome = true ∧ ∀ q ∈ parts, R q) (∃ q ∈ parts, M q)
      (Value.list <$> items.attach.zipIdx.mapM f) := by
  rw [hitems]
  refine ((judges_mapM_attach_zipIdx (R := fun x => R ⟨m, inner, x⟩)
    (M := fun x => M ⟨m, inner, x⟩) hf).map Value.list).congr ?_ ?_
  · simp
  · simp

/-- In every manner the items of a list are written one by one. -/
theorem judges_list {m : Manner} {kind : Collection} {inner : ShapeId}
    (hl : c.graph.land v.isNothing id = .shape sid (.list kind inner)) {ctx : FieldContext} :
    let parts := v.items?.elim [] fun items => items.map (Place.mk m inner)
    (∀ q ∈ parts, c.JudgedBy R M q) →
      Judges (v.items?.isSome = true ∧ ∀ q ∈ parts, R q) (∃ q ∈ parts, M q)
        (c.writeAs m ctx id v path) := by
  intro parts hparts
  have part {items : List Native} (hitems : v.items? = some items) (p : { x // x ∈ items } × Nat) :
      c.JudgedBy R M ⟨m, inner, p.1.val⟩ := by
    refine hparts _ ?_
    simp only [parts, hitems, Option.elim_some]
    exact List.mem_map_of_mem p.1.property
  unfold writeAs
  cases m with
  | plain | ints | keyed =>
    simp only
    first | rw [write, hl] | rw [writeInts, hl] | rw [writeKeyed, hl]
    simp only
    split
    · next h => exact judges_violate (by simp [h])
    · next h => exact judges_items h fun p => part h p ctx _

/-! ## Maps -/

theorem judges_entries {m : Manner} {key value : ShapeId} {es : List (Native × Native)}
    {run : Except Fault Value} {P : Native → Prop} (hes : v.entries? = some es)
    (h : Judges (∀ e ∈ es, P e.1 ∧ ∀ q ∈ ofEntry m key value e, R q)
      (∃ e ∈ es, ∃ q ∈ ofEntry m key value e, M q) run) :
    let parts := v.entries?.elim [] fun es => es.flatMap (ofEntry m key value)
    Judges ((∃ es, v.entries? = some es ∧ ∀ e ∈ es, P e.1) ∧ ∀ q ∈ parts, R q)
      (∃ q ∈ parts, M q) run := by
  rw [hes]
  refine h.congr ?_ ?_
  · constructor
    · intro he
      refine ⟨⟨es, rfl, fun e hmem => (he e hmem).1⟩, fun q hq => ?_⟩
      obtain ⟨e, hmem, hq⟩ := List.mem_flatMap.1 hq
      exact (he e hmem).2 q hq
    · rintro ⟨⟨es', hes', hkeys⟩, hparts⟩ e hmem
      cases hes'
      exact ⟨hkeys e hmem, fun q hq => hparts q (List.mem_flatMap.2 ⟨e, hmem, hq⟩)⟩
  · rintro ⟨e, hmem, q, hq, hm⟩
    exact ⟨q, List.mem_flatMap.2 ⟨e, hmem, hq⟩, hm⟩

/-- The entries of a map are written one by one, their keys as texts or as values. -/
theorem judges_map {m : Manner} {kind : Keyed} {key value : ShapeId}
    (hl : c.graph.land v.isNothing id = .shape sid (.map kind key value)) {ctx : FieldContext}
    (hm : ∀ repr, m ≠ .ints repr) :
    let parts := v.entries?.elim [] fun es => es.flatMap (ofEntry m key value)
    (∀ q ∈ parts, c.JudgedBy R M q) →
      Judges ((∃ es, v.entries? = some es ∧ ∀ e ∈ es, m.TakesKey e.1) ∧ ∀ q ∈ parts, R q)
        (∃ q ∈ parts, M q) (c.writeAs m ctx id v path) := by
  intro parts hparts
  have part {es : List (Native × Native)} (hes : v.entries? = some es) {e : Native × Native}
      (he : e ∈ es) (q : Place) (hq : q ∈ ofEntry m key value e) : c.JudgedBy R M q := by
    refine hparts _ ?_
    simp only [parts, hes, Option.elim_some]
    exact List.mem_flatMap.2 ⟨e, he, hq⟩
  have missing (hes : v.entries? = none) {N : Prop} :
      Judges ((∃ es, v.entries? = some es ∧ ∀ e ∈ es, m.TakesKey e.1) ∧ ∀ q ∈ parts, R q) N
        (violate .notEntries path : Except Fault Value) :=
    judges_violate (by simp [hes])
  unfold writeAs
  cases m with
  | ints repr => exact absurd rfl (hm repr)
  | plain =>
    simp only
    rw [write, hl]
    simp only
    split
    · next h => exact missing h
    next es h =>
    refine judges_entries h ((judges_mapM_attach fun p => ?_).map _)
    have hvalue := part h p.property ⟨.plain, value, p.val.2⟩ (by simp [ofEntry])
    simp only [ofEntry, reduceCtorEq, if_false, List.forall_mem_singleton, Manner.TakesKey]
    split
    · next t ht =>
      rw [ht]
      refine ((hvalue ctx (path.key t)).map fun w => (t, w)).congr ?_ ?_
      · simp
      · simp
    · next hkey => exact judges_violate fun h => h.1.elim hkey
  | keyed repr =>
    simp only
    rw [writeKeyed, hl]
    simp only
    split
    · next h => exact missing h
    next es h =>
    cases repr with
    | text =>
      refine judges_entries h ((judges_mapM_attach fun p => ?_).map _)
      have hvalue := part h p.property ⟨.plain, value, p.val.2⟩ (by simp [ofEntry])
      refine ((judges_keyText p.val.1 False).bind fun t _ =>
        (hvalue ctx (path.key t)).map fun w => (t, w)).congr ?_ ?_
      · simp [ofEntry, Manner.TakesKey]
      · simp [ofEntry]
    | pairs =>
      refine judges_entries h ((judges_mapM_attach_zipIdx fun p => ?_).map _)
      have hkey := part h p.1.property ⟨.plain, key, p.1.val.1⟩ (by simp [ofEntry])
      have hvalue := part h p.1.property ⟨.plain, value, p.1.val.2⟩ (by simp [ofEntry])
      refine ((hkey ctx _).bind fun k _ => (hvalue ctx _).map fun x =>
        Value.classOf (entryClassName ctx).1 [("key", k), ("value", x)]).congr ?_ ?_
      · simp [ofEntry, Manner.TakesKey]
      · simp [ofEntry]

/-! ## Structs and enums -/

theorem judges_writeFields {owner : String} {variant : Option Variant} {fields : List Field}
    {ms : List (String × Native)} (hms : v.members? = some ms)
    (hcodec : ∀ f ∈ fields, f.codec = none)
    (hparts : ∀ q ∈ ofFields fields ms, c.JudgedBy R M q) :
    Judges (∀ q ∈ ofFields fields ms, R q) (∃ q ∈ ofFields fields ms, M q)
      (c.writeFields owner variant fields v ms hms path) := by
  rw [writeFields]
  refine (judges_mapM (R := fun f => R ⟨f.manner, f.shape, Native.answer ms f.name⟩)
    (M := fun f => M ⟨f.manner, f.shape, Native.answer ms f.name⟩) fun f hf => ?_).congr ?_ ?_
  · rw [writeField_eq_writeAs (hcodec f (List.mem_filter.1 hf).1)]
    exact (hparts _ (List.mem_map_of_mem hf) _ _).map fun w => (f.name, w)
  · unfold ofFields
    rw [List.forall_mem_map]
  · rintro ⟨f, hf, hm⟩
    exact ⟨_, List.mem_map_of_mem hf, hm⟩

theorem judges_struct {d : Declared} {fields : List Field}
    (hl : c.graph.land v.isNothing id = .shape sid (.struct d fields))
    (hcodec : ∀ f ∈ fields, f.codec = none) :
    let parts := v.members?.elim [] (ofFields fields)
    (∀ q ∈ parts, c.JudgedBy R M q) →
      Judges (v.members?.isSome = true ∧ ∀ q ∈ parts, R q) (∃ q ∈ parts, M q)
        (c.write id v path) := by
  intro parts hparts
  rw [write, hl]
  simp only
  split
  · next h => exact judges_violate (by simp [h])
  next ms h =>
  have hof : parts = ofFields fields ms := by simp only [parts, h, Option.elim_some]
  rw [hof] at hparts ⊢
  refine ((judges_writeFields h hcodec hparts).map _).congr ?_ fun hm => hm
  simp [h]

/-- The message about an unknown variant shows the data that was to name it. -/
theorem judges_spoken {α : Type} {R M : Prop} {x : Native} {ident : String} (hR : ¬ R)
    (hM : x.spoken? = none → M) :
    Judges R M (do violate (.notVariant (← spoken x) ident) path : Except Fault α) := by
  unfold spoken
  cases hx : x.spoken? with
  | none => exact .breaksOff hR (hM hx)
  | some t => exact judges_violate hR

theorem members?_of_namedVariant? {vs : List Variant} {x : Variant}
    (h : namedVariant? vs v = some x) : v.members? = none := by
  unfold namedVariant? at h
  split at h
  · rfl
  · cases h

theorem judges_enum {d : Declared} {own : Option String} {u : Bool} {vs : List Variant}
    (hl : c.graph.land v.isNothing id = .shape sid (.enum d own u vs))
    {tag : String} (htag : own.getD c.names.tagField = tag)
    (hcodec : ∀ x ∈ vs, ∀ f ∈ x.fields, f.codec = none) :
    let parts := (v.variant? vs tag).elim [] fun x => v.members?.elim [] (ofFields x.fields)
    (∀ q ∈ parts, c.JudgedBy R M q) →
      Judges ((v.variant? vs tag).isSome = true ∧ ∀ q ∈ parts, R q)
        ((∃ x, v.naming? vs tag = some x ∧ x.spoken? = none) ∨ ∃ q ∈ parts, M q)
        (c.write id v path) := by
  intro parts hparts
  rw [write, hl]
  cases hdata : isDataEnum vs with
  | true =>
    simp only [hdata, if_true, htag]
    split
    · next h => exact judges_violate (by simp [Native.variant?, Native.naming?, hdata, h])
    next ms h =>
    have hnaming : v.naming? vs tag = some (Native.answer ms tag) := by
      simp [Native.naming?, hdata, h]
    have hvariant : v.variant? vs tag = namedVariant? vs (Native.answer ms tag) := by
      simp [Native.variant?, hnaming]
    split
    · next hx =>
      refine judges_spoken ?_ fun hmute => .inl ⟨_, hnaming, hmute⟩
      simp [hvariant, hx]
    · next x hx =>
      have hx' : v.variant? vs tag = some x := hvariant.trans hx
      have hof : parts = ofFields x.fields ms := by
        simp only [parts, hx', h, Option.elim_some]
      rw [hof] at hparts ⊢
      refine ((judges_writeFields h (hcodec x ?_) hparts).map _).congr ?_ .inr
      · exact mem_of_namedVariant? hx
      · simp [hx']
  | false =>
    simp only [hdata, Bool.false_eq_true, if_false]
    have hnaming : v.naming? vs tag = some v := by simp [Native.naming?, hdata]
    have hvariant : v.variant? vs tag = namedVariant? vs v := by simp [Native.variant?, hnaming]
    split
    · next hx =>
      refine judges_spoken ?_ fun hmute => .inl ⟨_, hnaming, hmute⟩
      simp [hvariant, hx]
    · next x hx =>
      refine .returns _ ⟨by rw [hvariant, hx]; rfl, ?_⟩
      simp [parts, hvariant, hx, members?_of_namedVariant? hx]

end

/-! ## The induction -/

section
variable {g : Graph} {s : BuildState} {m : Manner} {id sid : ShapeId} {tag : String} {p : Place}

/-- What the writer takes at every place that it comes to. -/
def Taken (g : Graph) (tag : String) : Place → Prop :=
  Everywhere (Place.parts g tag) (Place.Takes g tag)

/-- The writer comes to a place where it lacks a text. -/
def BreaksOff (g : Graph) (tag : String) (p : Place) : Prop :=
  ∃ q, p.Reaches g tag q ∧ q.Mute g tag

theorem breaksOff_of_part {q : Place} (hq : q ∈ p.parts g tag) (h : BreaksOff g tag q) :
    BreaksOff g tag p := by
  obtain ⟨r, hr, hm⟩ := h
  exact ⟨r, .head hq hr, hm⟩

/-- Once a place and its parts are judged, so are all that lie in it. -/
theorem judges_of_parts {α : Type} {run : Except Fault α}
    (h : Judges (p.Takes g tag ∧ ∀ q ∈ p.parts g tag, Taken g tag q)
      (p.Mute g tag ∨ ∃ q ∈ p.parts g tag, BreaksOff g tag q) run) :
    Judges (Taken g tag p) (BreaksOff g tag p) run := by
  refine h.congr everywhere_iff.symm ?_
  rintro (hm | ⟨q, hq, hm⟩)
  · exact ⟨p, .refl, hm⟩
  · exact breaksOff_of_part hq hm

theorem judges_scalar {c : Converter} {x : Scalar} {v : Native} {path : Path} {ctx : FieldContext}
    (hl : c.graph.land v.isNothing id = .shape sid (.scalar x)) :
    Judges (m.TakesScalar x v) False (c.writeAs m ctx id v path) := by
  have other (hm : ∀ repr, m ≠ .ints repr) :
      Judges (x.Takes v) False (c.writeAs m ctx id v path) := by
    rw [writeAs_other hl hm (.inr ⟨x, rfl⟩),
      write_scalar ((Graph.landsAt_of_land hl).land v.isNothing)]
    exact judges_writeScalar x _
  cases m with
  | ints repr =>
    show Judges (repr.Takes v) False (c.writeInts repr id v path)
    rw [writeInts_scalar hl]
    exact judges_writeIntAs repr _ _
  | plain => exact other nofun
  | keyed => exact other nofun

/-- A place is judged by its parts. -/
theorem judged_step (h : Placed g s p)
    (hparts : ∀ q ∈ p.parts g tag,
      (Converter.mk g ⟨s.names, tag⟩).JudgedBy (Taken g tag) (BreaksOff g tag) q) :
    (Converter.mk g ⟨s.names, tag⟩).JudgedBy (Taken g tag) (BreaksOff g tag) p := by
  obtain ⟨m, id, v⟩ := p
  intro ctx path
  refine judges_of_parts ?_
  simp only [Place.Takes, Place.parts, Place.Mute] at hparts ⊢
  cases hl : g.land v.isNothing id with
  | null =>
    rw [writeAs_null hl]
    exact .returns _ ⟨trivial, fun q hq => absurd hq List.not_mem_nil⟩
  | endless =>
    obtain ⟨n, hn⟩ : ∃ n, g.Ends v.isNothing id n := h.manner.ends
    exact absurd hl hn.land_ne
  | shape sid x =>
    rw [hl] at hparts
    have hlands := Graph.landsAt_of_land hl
    have hcodec := (h.free.land hlands).self
    have hsuits := h.manner.suits hl
    have hself := hlands.land v.isNothing
    rw [hlands.shape] at hcodec
    cases x with
    | scalar x =>
      have hleaf (q : Place) (hq : q ∈ []) : Taken g tag q := absurd hq List.not_mem_nil
      exact (judges_scalar hl).congr (and_iff_left hleaf).symm False.elim
    | list kind inner => exact (judges_list hl hparts).congr .rfl .inr
    | map kind key value => exact (judges_map hl hsuits.1 hparts).congr .rfl .inr
    | struct d fields =>
      rw [writeAs_other hl hsuits.1 (.inl rfl)]
      exact (judges_struct hself (hcodec fields List.mem_cons_self) hparts).congr .rfl .inr
    | enum d own u vs =>
      rw [writeAs_other hl hsuits.1 (.inl rfl)]
      exact judges_enum hself rfl (fun x hx => hcodec x.fields (List.mem_map_of_mem hx)) hparts
    | _ => exact hsuits.elim

/-- The writer is judged at every place whose shape has a type. -/
theorem judged (hsound : Sound g tag (fun _ => False) s) (h : Placed g s p) :
    (Converter.mk g ⟨s.names, tag⟩).JudgedBy (Taken g tag) (BreaksOff g tag) p := by
  induction hn : p.value.weight using Nat.strongRecOn generalizing p with
  | ind n ih =>
  exact judged_step h fun q hq => ih _ (hn ▸ weight_of_part hq) (h.parts hsound q hq) rfl

/-- At a place that the writer takes at every depth, a value is well typed exactly if nothing is
wrong that the writer leaves out. -/
theorem wellTyped_iff_exact (hsound : Sound g tag (fun _ => False) s) (h : Placed g s p)
    (htaken : Taken g tag p) : p.WellTyped g tag ↔
      ∀ q, p.Reaches g tag q → q.Exact g ∧ ∀ k ∈ q.keys g, k.WellTyped g tag := by
  refine everywhere_append.trans (forall₂_congr fun q hq => and_congr_left' ?_)
  refine fits_iff_exact (fun repr sid x hm hl => ?_) (htaken q hq)
  exact ((h.everywhere hsound hq).manner.suits hl).1 repr hm

end

/-! ## The main result -/

/-- Writing a value of a codec-free shape whose schema was built returns exactly if the writer takes
it at every place. Otherwise a promise is broken, or the message about an unknown variant has no
text to show. What is written is well typed at every depth exactly if no place that the writer came
to is wrong in a way that it leaves out, and neither is a key that it wrote as a text. -/
theorem write_wellTyped {g : Graph} {root : ShapeId} {tag : String} {b : Bundle} {s : BuildState}
    (hb : buildSchema g root tag = (.ok b, s)) (hfree : g.Below Shape.CodecFree root) (v : Native)
    (path : Path) :
    let p : Place := ⟨.plain, root, v⟩
    let run := (Converter.mk g b.nameTable).write root v path
    ((∃ w, run = .ok w) ↔ ∀ q, p.Reaches g tag q → q.Takes g tag) ∧
    (∀ e, run = .error e → (∃ x, e = .violation x) ∨
      e = .unspeakable ∧ ∃ q, p.Reaches g tag q ∧ q.Mute g tag) ∧
    ∀ w, run = .ok w → (p.WellTyped g tag ↔
      ∀ q, p.Reaches g tag q → q.Exact g ∧ ∀ k ∈ q.keys g, k.WellTyped g tag) := by
  intro p run
  obtain ⟨t, rfl, hsound, htarget⟩ := built_of_buildSchema hfree hb
  have hplaced : Placed g s p := ⟨hfree, t, htarget⟩
  have hjudged : Judges (Taken g tag p) (BreaksOff g tag p) run :=
    judged hsound hplaced ⟨"", "", "", none, none⟩ path
  generalize run = run at hjudged
  cases hjudged with
  | returns w htaken =>
    refine ⟨iff_of_true ⟨w, rfl⟩ htaken, nofun, fun _ _ => ?_⟩
    exact wellTyped_iff_exact hsound hplaced htaken
  | refuses x hnot =>
    refine ⟨iff_of_false nofun hnot, fun e he => ?_, nofun⟩
    cases he
    exact .inl ⟨x, rfl⟩
  | breaksOff hnot hmute =>
    refine ⟨iff_of_false nofun hnot, fun e he => ?_, nofun⟩
    cases he
    exact .inr ⟨rfl, hmute⟩

/-- A list of letters, a letter, and an enum of letters. -/
def lettersGraph : Graph := ⟨#[.list .array 1, .scalar .char,
  .enum { ident := "Letter" } none false [{ name := "A" }]]⟩

theorem write_wellTyped_letters : ∃ b s, buildSchema lettersGraph 0 "type" = (.ok b, s) ∧
    lettersGraph.Below Shape.CodecFree 0 ∧
    (∃ w, (Converter.mk lettersGraph b.nameTable).write 0 (.array [.text "a"]) .root = .ok w) ∧
    (Place.mk .plain 0 (.array [.text "a"])).WellTyped lettersGraph "type" := by
  have hfree : lettersGraph.Below Shape.CodecFree 0 := fun i _ =>
    Graph.forall_shape (by decide) (by decide) i
  obtain ⟨b, s, hb⟩ : ∃ b s, buildSchema lettersGraph 0 "type" = (.ok b, s) := ⟨_, _, rfl⟩
  obtain ⟨hreturns, -, htyped⟩ := write_wellTyped hb hfree (.array [.text "a"]) .root
  have places {P : Place → Prop} (hlist : P ⟨.plain, 0, .array [.text "a"]⟩)
      (hletter : P ⟨.plain, 1, .text "a"⟩) (q : Place)
      (hq : (Place.mk .plain 0 (.array [.text "a"])).Reaches lettersGraph "type" q) : P q :=
    everywhere_iff.2 ⟨hlist, List.forall_mem_singleton.2 (everywhere_iff.2
      ⟨hletter, fun r hr => (List.not_mem_nil (a := r) hr).elim⟩)⟩ q hq
  obtain ⟨w, hw⟩ := hreturns.2 (places rfl ⟨"a", rfl⟩)
  have hlist : Collection.Exact .array (.array [.text "a"]) := ⟨nofun, fun _ _ => nofun⟩
  have hletter : Scalar.Exact .char (.text "a") :=
    ⟨fun _ t ht => by cases ht; decide, nofun, nofun, nofun⟩
  exact ⟨b, s, hb, hfree, ⟨w, hw⟩, (htyped w hw).2 (places ⟨hlist, nofun⟩ ⟨hletter, nofun⟩)⟩

/-- Two letters are written where there is to be one, and an object that hides its text is refused
in another way than by a broken promise. -/
theorem write_wellTyped_fails :
    (lettersGraph.Below Shape.CodecFree 1 ∧ ∃ b s, buildSchema lettersGraph 1 "type" = (.ok b, s) ∧
      (Converter.mk lettersGraph b.nameTable).write 1 (.text "ab") .root = .ok (.text "ab") ∧
      ¬ (Place.mk .plain 1 (.text "ab")).WellTyped lettersGraph "type") ∧
    lettersGraph.Below Shape.CodecFree 2 ∧ ∃ b s, buildSchema lettersGraph 2 "type" = (.ok b, s) ∧
      (Converter.mk lettersGraph b.nameTable).write 2 (.object [("toString", .text "A")]) .root =
        .error .unspeakable := by
  refine ⟨⟨fun i _ => Graph.forall_shape (by decide) (by decide) i, _, _, rfl,
    (write_scalar rfl).trans rfl, fun h => ?_⟩,
    fun i _ => Graph.forall_shape (by decide) (by decide) i, _, _, rfl, ?_⟩
  · obtain ⟨t, ht, hone⟩ := (everywhere_iff.1 h).1
    cases ht
    revert hone
    decide
  · rw [write]
    rfl

end Converter

end ShapeSchema
