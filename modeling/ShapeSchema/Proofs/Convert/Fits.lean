import ShapeSchema.Proofs.Convert.Coercing
import ShapeSchema.Proofs.Convert.Spelling

/-!
# Values that coercion gives back

A value `Fits` a type in a spelling if coercion answers the value itself when it meets the spelled
one, takes no other liberties than those of the spelling and to choose among the members of a union,
and drops nothing, whatever the constraints say. There is one lemma for each form of type; a union
takes a value that the members before the right one refuse.
-/

namespace ShapeSchema

/-! ## Calm notes -/

/-- Nothing was dropped, and no liberty taken but the choice of union members and some others. -/
def Notes.Calm (free : List FlagKind) (n : Notes) : Prop :=
  n.explanations = [] ∧ ∀ f ∈ n.flags, f.kind = .unionMember ∨ f.kind ∈ free

theorem Notes.calm_empty (free : List FlagKind) : Notes.Calm free {} := ⟨rfl, by simp⟩

theorem Notes.calm_append {free : List FlagKind} {a b : Notes} :
    (a ++ b).Calm free ↔ a.Calm free ∧ b.Calm free := by
  unfold Calm
  simp only [append_explanations, append_flags, List.append_eq_nil_iff, List.forall_mem_append]
  tauto

theorem Notes.joins_calm (free : List FlagKind) : Notes.Joins (Notes.Calm free) :=
  ⟨calm_empty free, fun ha hb => calm_append.2 ⟨ha, hb⟩⟩

namespace Checked

variable {α β : Type} {free : List FlagKind}

/-- A run answers a value with calm notes. -/
def Gives (free : List FlagKind) (x : Checked α) (a : α) : Prop :=
  ∃ n, x.result = .ok (a, n) ∧ n.Calm free

theorem gives_pure (a : α) : Gives free (pure a) a := ⟨{}, rfl, Notes.calm_empty free⟩

theorem Gives.bind {x : Checked α} {f : α → Checked β} {a : α} {b : β} (hx : x.Gives free a)
    (hf : (f a).Gives free b) : (x >>= f).Gives free b :=
  Answers.bind hx (Notes.joins_calm free) hf

theorem Gives.map {x : Checked α} {a : α} (hx : x.Gives free a) (f : α → β) :
    (f <$> x).Gives free (f a) := Answers.map hx f

theorem gives_mapM {f : α → Checked β} {xs : List α} {ys : List β}
    (h : List.Forall₂ (fun x y => (f x).Gives free y) xs ys) : (xs.mapM f).Gives free ys :=
  answers_mapM (Notes.joins_calm free) h

theorem error_bind {x : Checked α} {e : Fault} (h : x.result = .error e) (f : α → Checked β) :
    (x >>= f).result = .error e := by
  show (Checked.bind x f).result = _
  unfold Checked.bind
  rw [h]

theorem gives_flag {kind : FlagKind} (h : kind = .unionMember ∨ kind ∈ free) (path : String)
    (detail : Option String) : Gives free (flag ⟨kind, path, detail⟩) () :=
  ⟨_, rfl, rfl, by simpa using h⟩

end Checked

/-- Evaluating constraints succeeds, and leaves nothing but results in the notes. -/
theorem answers_evaluate {good : Notes → Prop} (hgood : Notes.Joins good)
    (hresults : ∀ n : Notes, n.flags = [] → n.explanations = [] → good n) (v : Value)
    (cs : List Constraint) (eval : Evaluator) :
    (evaluateConstraints v cs eval .quiet).Answers good () := by
  have one : ∀ c : Constraint, (c.evaluate eval .quiet v.plain).Answers good () := by
    intro c
    have record : ∀ passed, (Checked.note (c.record passed)).Answers good () := by
      intro passed
      refine ⟨_, rfl, ?_⟩
      unfold Constraint.record
      cases c.level with
      | check => exact hresults _ rfl rfl
      | assert => cases passed <;> exact hresults _ rfl rfl
    unfold Constraint.evaluate
    split
    · exact record _
    · exact Checked.Answers.bind ⟨{}, rfl, hgood.empty⟩ hgood (record false)
  unfold evaluateConstraints
  show (cs.forM fun c => c.evaluate eval .quiet v.plain).Answers good ()
  induction cs with
  | nil => exact Checked.answers_pure hgood ()
  | cons c cs ih => exact (one c).bind hgood ih

theorem gives_evaluate (free : List FlagKind) (v : Value) (cs : List Constraint)
    (eval : Evaluator) : (evaluateConstraints v cs eval .quiet).Gives free () :=
  answers_evaluate (Notes.joins_calm free) (fun n hflags hexplanations => ⟨hexplanations, by
    simp [hflags]⟩) v cs eval

namespace Coercer

variable {c : Coercer} {sp : Spelling}

/-! ## The root of a type -/

/-- Coercion gives a spelled value back as it was, whatever annotates the root of its type; a null
has to be accepted without looking at it, too. -/
structure Fits (c : Coercer) (sp : Spelling) (v : Value) (t : Ty Authored) : Prop where
  form : ∀ a pending path, (c.coerceForm pending (sp.spell v) (t.withAnn a) path).Gives sp.free v
  null : v = .null → ∀ a, c.schema.acceptsNull (t.withAnn a) = true

/-- A type turns a value down, so that a union goes on to its next member. -/
def Refuses (c : Coercer) (v : Value) (t : Ty Authored) : Prop :=
  ∀ pending path, ∃ e, (c.coerceForm pending v t path).result = .error (.convert e)

theorem withAnn_ann {μ : Type} (t : Ty μ) : t.withAnn t.ann = t := by
  cases t <;> rfl

theorem exists_withAnn (t : Ty Authored) (cs : List Constraint) :
    ∃ a, t.withConstraints cs = t.withAnn a := by
  unfold Ty.withConstraints
  split
  · exact ⟨t.ann, (withAnn_ann t).symm⟩
  · exact ⟨_, rfl⟩

theorem withAnn_withAnn {μ : Type} (t : Ty μ) (a b : μ) :
    (t.withAnn a).withAnn b = t.withAnn b := by
  cases t <;> rfl

namespace Fits

variable {v : Value} {t : Ty Authored}

theorem withAnn (h : c.Fits sp v t) (a : Authored) : c.Fits sp v (t.withAnn a) where
  form b pending path := by
    rw [withAnn_withAnn]
    exact h.form b pending path
  null hv b := by
    rw [withAnn_withAnn]
    exact h.null hv b

theorem withConstraints (h : c.Fits sp v t) (cs : List Constraint) :
    c.Fits sp v (t.withConstraints cs) := by
  unfold Ty.withConstraints
  split
  · exact h
  · exact h.withAnn _

theorem coerceForm (h : c.Fits sp v t) (pending : List String) (path : Path) :
    (c.coerceForm pending (sp.spell v) t path).Gives sp.free v := by
  have := h.form t.ann pending path
  rwa [withAnn_ann] at this

theorem coerce (hq : c.sink = .quiet) (h : c.Fits sp v t) (pending : List String) (path : Path) :
    (c.coerce pending (sp.spell v) t path).Gives sp.free v := by
  rw [Coercer.coerce, hq]
  exact (h.coerceForm pending path).bind
    ((gives_evaluate _ v _ c.eval).bind (Checked.gives_pure v))

theorem acceptsNull (h : c.Fits sp v t) (hv : v = .null) : c.schema.acceptsNull t = true := by
  have := h.null hv t.ann
  rwa [withAnn_ann] at this

end Fits

theorem Refuses.coerce {v : Value} {t : Ty Authored} (h : c.Refuses v t) (pending : List String)
    (path : Path) : ∃ e, (c.coerce pending v t path).result = .error (.convert e) := by
  obtain ⟨e, he⟩ := h pending path
  rw [Coercer.coerce]
  exact ⟨e, Checked.error_bind he _⟩

theorem isNull_of_ne {v : Value} (h : v ≠ .null) : v.isNull = false := by
  cases v <;> first | rfl | exact absurd rfl h

/-! ## Forms without parts -/

theorem fits_prim {p : Prim} {v : Value} {a : Authored} (hv : v = .null → p = .null)
    (hatom : v.isAtom = true) (h : ∀ t path, (coercePrim p t v path).Gives sp.free v) :
    c.Fits sp v (.prim p a) where
  form b pending path := by
    rw [Ty.withAnn, Coercer.coerceForm, sp.spell_of_isAtom hatom]
    exact h _ path
  null hn b := by
    rw [hv hn]
    rw [Schema.acceptsNull, Ty.withAnn, Schema.acceptsNullAmong]
    rfl

theorem fits_literal {l : Literal} {v : Value} {a : Authored} (hatom : v.isAtom = true)
    (h : l.matches v = true) : c.Fits sp v (.literal l a) where
  form b pending path := by
    rw [Ty.withAnn, Coercer.coerceForm, sp.spell_of_isAtom hatom, if_pos h]
    exact Checked.gives_pure v
  null hv _ := by
    subst hv
    cases l <;> cases h

theorem refuses_literal {l : Literal} {v : Value} {a : Authored} (h : l.matches v = false) :
    c.Refuses v (.literal l a) := by
  intro pending path
  rw [Coercer.coerceForm, h]
  exact ⟨_, rfl⟩

theorem fits_enumRef {name variant : String} {e : EnumDef} {x : EnumValueDef} {dyn : Bool}
    {a : Authored} (he : c.schema.findEnum? name = some e)
    (hx : e.findValue? ((sp.text? name variant).getD variant) = some x)
    (hreal : x.name.real = variant)
    (hfree : (sp.text? name variant).isSome = true → .stringToEnum ∈ sp.free) :
    c.Fits sp (.enumOf name variant) (.enumRef name dyn a) where
  form b pending path := by
    rw [Ty.withAnn, Coercer.coerceForm]
    unfold coerceEnum
    rw [he]
    simp only [Spelling.variantName?_spell, hx, hreal]
    rw [Spelling.spell]
    cases ht : sp.text? name variant with
    | none => exact Checked.gives_pure _
    | some t =>
      refine (Checked.gives_flag (.inr (hfree ?_)) _ _).bind (Checked.gives_pure _)
      rw [ht]
      rfl
  null hv := by cases hv

/-! ## Containers -/

theorem map_val_attach_zipIdx {α : Type} (xs : List α) :
    xs.attach.zipIdx.map (fun p => p.1.val) = xs := by
  have := congrArg (List.map Subtype.val) (List.zipIdx_map_fst 0 xs.attach)
  rw [List.map_map, List.attach_map_subtype_val] at this
  exact this

theorem fits_list (hq : c.sink = .quiet) {items : List Value} {t : Ty Authored} {a : Authored}
    (h : ∀ x ∈ items, c.Fits sp x t) : c.Fits sp (.list items) (.list t a) where
  form b pending path := by
    rw [Ty.withAnn, Coercer.coerceForm, Spelling.spell_list]
    show Checked.Gives _ (Value.list <$> (items.map sp.spell).attach.zipIdx.mapM _) _
    refine Checked.Gives.map (a := items) (Checked.gives_mapM ?_) _
    have spelled : List.Forall₂ (fun x y => y ∈ items ∧ x = sp.spell y)
        ((items.map sp.spell).attach.zipIdx.map fun p => p.1.val) items := by
      rw [map_val_attach_zipIdx, List.forall₂_map_left_iff, List.forall₂_same]
      exact fun x hx => ⟨hx, rfl⟩
    refine (List.forall₂_map_left_iff.1 spelled).imp ?_
    rintro p y ⟨hy, hp⟩
    rw [hp]
    exact (h y hy).coerce hq _ _
  null hv := by cases hv

theorem gives_keepOrDrop {free : List FlagKind} {sink : Sink} {key : String} {r : Checked Value}
    {v : Value} (h : r.Gives free v) : (keepOrDrop sink key r).Gives free (some (key, v)) := by
  obtain ⟨n, hn, calm⟩ := h
  refine ⟨n, ?_, calm⟩
  unfold keepOrDrop
  rw [hn]

theorem fits_map (hq : c.sink = .quiet) {es : List (String × Value)} {k t : Ty Authored}
    {a : Authored} (nd : (Entries.keys es).Nodup) (h : ∀ p ∈ es, c.Fits sp p.2 t) :
    c.Fits sp (.map es) (.map k t a) where
  form b pending path := by
    rw [Ty.withAnn, Coercer.coerceForm, Spelling.spell_map]
    show Checked.Gives _
      ((es.map fun p => (p.1, sp.spell p.2)).attach.mapM _ >>= fun kept =>
        pure (Value.ofEntries (kept.filterMap id))) _
    have kept : (es.map some).filterMap id = es := by
      rw [List.filterMap_map]
      exact List.filterMap_some
    refine Checked.Gives.bind (a := es.map some) (Checked.gives_mapM ?_) ?_
    · have spelled : List.Forall₂ (fun p q => q ∈ es ∧ p = (q.1, sp.spell q.2))
          ((es.map fun p => (p.1, sp.spell p.2)).attach.map Subtype.val) es := by
        rw [List.attach_map_subtype_val, List.forall₂_map_left_iff, List.forall₂_same]
        exact fun p hp => ⟨hp, rfl⟩
      rw [List.forall₂_map_right_iff]
      refine (List.forall₂_map_left_iff.1 spelled).imp ?_
      rintro p q ⟨hq', hp⟩
      rw [hp]
      exact gives_keepOrDrop ((h q hq').coerce hq _ _)
    · rw [kept, Value.ofEntries, Entries.ofList_of_nodup nd]
      exact Checked.gives_pure _
  null hv := by cases hv

/-! ## Classes -/

theorem fits_class (hq : c.sink = .quiet) {name : String} {mode : Mode} {d : ClassDef}
    {es : List (String × Value)} {dyn : Bool} {a : Authored}
    (hd : c.schema.findClass? name mode = some d)
    (htells : Spelling.Tells (sp.field name) (d.fields.map (·.name)))
    (h : List.Forall₂ (fun f p => p.1 = f.name.real ∧ c.Fits sp p.2 f.type) d.fields es) :
    c.Fits sp (.classOf name es) (.classRef name mode dyn a) where
  form b pending path := by
    have hkeys : Entries.keys es = (d.fields.map (·.name)).map Name.real := by
      rw [List.map_map]
      exact map_eq_of_forall₂ (h.imp fun _ _ hp => hp.1)
    have nd : (Entries.keys es).Nodup := hkeys ▸ htells.nodup_real
    rw [Ty.withAnn, Coercer.coerceForm, hd, Spelling.spell_classOf]
    simp only
    split
    · next he => cases he
    next es' he =>
    obtain rfl : es.map (fun p => (sp.field name p.1, sp.spell p.2)) = es' := Option.some.inj he
    refine Checked.Gives.bind (a := es) (Checked.gives_mapM ?_) ?_
    · have listed := (List.forall₂_and_left es d.fields).2 ⟨fun _ hp => hp, h.flip⟩
      have named := (List.forall₂_and_left d.fields es).2 ⟨fun _ hf => hf, listed.flip⟩
      refine named.imp ?_
      rintro f ⟨k, v⟩ ⟨hf, hmem, rfl, hfits⟩
      have hlookup := sp.lookup?_spelled htells hkeys (List.mem_map_of_mem hf) hmem
      split
      · next hnone =>
        rw [hlookup] at hnone
        cases hnone
      next found hfound =>
      obtain rfl : sp.spell v = found := Option.some.inj (hlookup.symm.trans hfound)
      split
      · next hnull =>
        -- a null of a required field would be refused
        rw [Spelling.isNull_spell, Bool.and_eq_true] at hnull
        have hv : v = .null := by
          cases v <;> first | rfl | cases hnull.1
        have := hfits.acceptsNull hv
        rw [this] at hnull
        cases hnull.2
      · exact (hfits.coerce hq _ _).bind (Checked.gives_pure _)
    · rw [Value.ofFields, Entries.ofList_of_nodup nd, hq]
      exact (gives_evaluate _ _ _ _).bind (Checked.gives_pure _)
  null hv := by cases hv

theorem refuses_class {name : String} {mode : Mode} {d : ClassDef} {f : FieldDef}
    {fs : List FieldDef} {v found : Value} {es : List (String × Value)} {dyn : Bool} {a : Authored}
    (hd : c.schema.findClass? name mode = some d) (hfs : d.fields = f :: fs)
    (hv : v.entries? = some es) (hfound : f.name.lookup? es = some found)
    (hnull : found ≠ .null) (h : c.Refuses found f.type) :
    c.Refuses v (.classRef name mode dyn a) := by
  intro pending path
  rw [Coercer.coerceForm, hd]
  simp only
  split
  · next he =>
    rw [hv] at he
    cases he
  next es' he =>
  obtain rfl : es = es' := Option.some.inj (hv.symm.trans he)
  obtain ⟨e, he⟩ := h.coerce c.schema.aliasNames (path.field f.name.real)
  refine ⟨e, ?_⟩
  rw [hfs, List.mapM_cons]
  refine Checked.error_bind (Checked.error_bind ?_ _) _
  split
  · next hnone =>
    rw [hfound] at hnone
    cases hnone
  next w hw =>
  obtain rfl : found = w := Option.some.inj (hfound.symm.trans hw)
  rw [isNull_of_ne hnull, Bool.false_and, if_neg Bool.false_ne_true]
  exact Checked.error_bind he _

/-! ## Unions -/

theorem fits_union (hq : c.sink = .quiet) {v : Value} {before after : List (Ty Authored)}
    {t : Ty Authored} {null : Option Authored} {a : Authored} (hv : v ≠ .null)
    (hbefore : ∀ u ∈ before, c.Refuses (sp.spell v) u) (h : c.Fits sp v t) :
    c.Fits sp v (.union (before ++ t :: after) null a) where
  form b pending path := by
    rw [Ty.withAnn, Coercer.coerceForm, Spelling.isNull_spell, isNull_of_ne hv, Bool.false_and,
      if_neg Bool.false_ne_true]
    refine answers_firstFit (i := before.length) (by simp) ?_ ?_
    · simp only [List.getElem_map, List.getElem_zipIdx, List.getElem_attach,
        List.getElem_append_right (Nat.le_refl _), Nat.sub_self, List.getElem_cons_zero]
      refine Checked.Gives.bind (a := v) (h.coerce hq _ _) ?_
      split
      · exact (Checked.gives_flag (.inl rfl) _ _).bind (Checked.gives_pure v)
      · exact Checked.gives_pure v
    · intro j hj
      simp only [List.getElem_map, List.getElem_zipIdx, List.getElem_attach,
        List.getElem_append_left hj]
      obtain ⟨e, he⟩ := (hbefore before[j] (List.getElem_mem hj)).coerce pending path
      exact ⟨e, Checked.error_bind he _⟩
  null hn := absurd hn hv

/-! ## Options -/

theorem firstFit_congr {whenEmpty other : Checked Value} :
    ∀ {runs : List (Unit → Checked Value)} {last : Option Fault}, runs ≠ [] ∨ last.isSome = true →
      firstFit last whenEmpty runs = firstFit last other runs := by
  intro runs
  induction runs with
  | nil =>
    intro last h
    obtain ⟨e, rfl⟩ := Option.isSome_iff_exists.1 (h.resolve_left (absurd rfl))
    rfl
  | cons run runs ih =>
    intro last _
    unfold firstFit
    simp only
    split
    · rw [ih (.inr rfl)]
    · rfl

theorem fits_null_union {ms : List (Ty Authored)} {n a : Authored} :
    c.Fits sp .null (.union ms (some n) a) where
  form b pending path := by
    rw [Ty.withAnn, Coercer.coerceForm, Spelling.isNull_spell, sp.spell_of_isAtom rfl]
    exact Checked.gives_pure _
  null _ b := by
    rw [Schema.acceptsNull, Ty.withAnn, Schema.acceptsNullAmong]
    rfl

theorem fits_null_optional (t : Ty Authored) : c.Fits sp .null t.optional := by
  unfold Ty.optional Ty.optionalOf
  split
  · exact fits_prim (fun _ => rfl) rfl fun _ _ => Checked.gives_pure _
  · exact fits_null_union
  · exact fits_null_union
  · exact fits_null_union

theorem Fits.optional (hq : c.sink = .quiet) {v : Value} {t : Ty Authored} (h : c.Fits sp v t) :
    c.Fits sp v t.optional := by
  by_cases hv : v = .null
  · rw [hv]
    exact fits_null_optional t
  unfold Ty.optional Ty.optionalOf
  split
  · exact h
  · exact h
  · next ms a =>
    refine ⟨fun b pending path => ?_, fun hn => absurd hn hv⟩
    have hform := h.form b pending path
    rw [Ty.withAnn, Coercer.coerceForm, Spelling.isNull_spell, isNull_of_ne hv, Bool.false_and,
      if_neg Bool.false_ne_true] at hform ⊢
    cases ms with
    | nil =>
      obtain ⟨n, hn, -⟩ := hform
      cases hn
    | cons m ms => rwa [firstFit_congr (.inl (by simp))]
  · show c.Fits sp v (.union ([] ++ t :: []) _ _)
    exact fits_union hq hv (by simp) h

end Coercer

end ShapeSchema
