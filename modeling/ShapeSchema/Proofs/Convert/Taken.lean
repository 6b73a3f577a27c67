import ShapeSchema.Proofs.Convert.Fits
import ShapeSchema.Proofs.Shape.Rules

/-!
# Values that coercion takes

`Coercer.Takes` says which value coercion makes of another one at a type without constraints. Unlike
a value that fits, what is made may have another form: a map becomes a class value, a text an enum
value, a whole number a float. There is one lemma for each form of type, which asks for the parts of
the value what it concludes for the whole.
-/

namespace ShapeSchema

/-- No constraint has been judged. -/
def Notes.Unjudged (n : Notes) : Prop := n.checks = [] ∧ n.failedAsserts = []

theorem joins_unjudged : Notes.Joins Notes.Unjudged where
  empty := ⟨rfl, rfl⟩
  append ha hb := by
    unfold Notes.Unjudged
    rw [Notes.append_checks, Notes.append_failedAsserts, ha.1, ha.2, hb.1, hb.2]
    exact ⟨rfl, rfl⟩

namespace Checked

variable {α β : Type}

/-- A run answers a value, and no constraint has been judged on the way. -/
def Passes (x : Checked α) (a : α) : Prop := x.Answers Notes.Unjudged a

theorem passes_pure (a : α) : (Pure.pure a : Checked α).Passes a :=
  answers_pure joins_unjudged a

theorem Passes.bind {x : Checked α} {f : α → Checked β} {a : α} {b : β} (hx : x.Passes a)
    (hf : (f a).Passes b) : (x >>= f).Passes b := Answers.bind hx joins_unjudged hf

theorem passes_mapM {f : α → Checked β} {xs : List α} {ys : List β}
    (h : List.Forall₂ (fun x y => (f x).Passes y) xs ys) : (xs.mapM f).Passes ys :=
  answers_mapM joins_unjudged h

theorem passes_flag (f : Flag) : (flag f).Passes () := ⟨_, rfl, rfl, rfl⟩

end Checked

namespace Value

variable {v : Value}

theorem isNull_of_items? {items : List Value} (h : v.items? = some items) : v.isNull = false := by
  cases v <;> first | rfl | cases h

theorem isNull_of_entries? {es : List (String × Value)} (h : v.entries? = some es) :
    v.isNull = false := by
  cases v <;> first | rfl | cases h

theorem isNull_of_variantName? {name : String} (h : v.variantName? = some name) :
    v.isNull = false := by
  cases v <;> first | rfl | cases h

theorem eq_null_of_isNull (h : v.isNull = true) : v = .null := by
  cases v <;> first | rfl | cases h

end Value

namespace Coercer

open Checked

variable {c : Coercer} {v w : Value} {t : Ty Authored} {a : Authored}

/-- Coercion makes a value of another one at a type without constraints, and a null only of a null
that the type accepts. -/
structure Takes (c : Coercer) (v w : Value) (t : Ty Authored) : Prop where
  form : ∀ pending path, (c.coerceForm pending v t path).Passes w
  unruled : t.ann.constraints = []
  isNull : w.isNull = v.isNull
  acceptsNull : v.isNull = true → c.schema.acceptsNull t = true

theorem passes_evaluate_nil (v : Value) : (evaluateConstraints v [] c.eval c.sink).Passes () :=
  passes_pure ()

theorem Takes.coerce (h : c.Takes v w t) (pending : List String) (path : Path) :
    (c.coerce pending v t path).Passes w := by
  rw [Coercer.coerce, h.unruled]
  exact (h.form pending path).bind ((passes_evaluate_nil w).bind (passes_pure w))

/-- What a value other than null is made into. -/
theorem takes_of_form (ha : t.ann.constraints = []) (hv : v.isNull = false)
    (hw : w.isNull = false) (h : ∀ pending path, (c.coerceForm pending v t path).Passes w) :
    c.Takes v w t where
  form := h
  unruled := ha
  isNull := hw.trans hv.symm
  acceptsNull hn := absurd (hv.symm.trans hn) Bool.false_ne_true

/-! ## Forms without parts -/

theorem takes_prim {p : Prim} (ha : a.constraints = []) (hnull : w.isNull = v.isNull)
    (hv : v.isNull = true → p = .null) (h : ∀ t path, (coercePrim p t v path).Passes w) :
    c.Takes v w (.prim p a) where
  form pending path := by
    rw [coerceForm]
    exact h _ path
  unruled := ha
  isNull := hnull
  acceptsNull hn := by
    rw [hv hn, Schema.acceptsNull, Schema.acceptsNullAmong]
    rfl

/-- A value that is not null is taken for any primitive that makes no null of it. -/
theorem takes_solid {p : Prim} (ha : a.constraints = []) (hv : v.isNull = false)
    (hw : w.isNull = false) (h : ∀ t path, (coercePrim p t v path).Passes w) :
    c.Takes v w (.prim p a) :=
  takes_prim ha (hw.trans hv.symm) (fun hn => absurd (hv.symm.trans hn) Bool.false_ne_true) h

theorem takes_literal {l : Literal} (ha : a.constraints = []) (h : l.matches v = true) :
    c.Takes v v (.literal l a) := by
  have hv : v.isNull = false := by
    cases v <;> first | rfl | (cases l <;> cases h)
  refine takes_of_form ha hv hv fun pending path => ?_
  rw [coerceForm, if_pos h]
  exact passes_pure v

theorem takes_enumRef {name key : String} {e : EnumDef} {x : EnumValueDef} {dyn : Bool}
    (ha : a.constraints = []) (he : c.schema.findEnum? name = some e)
    (hv : v.variantName? = some key) (hx : e.findValue? key = some x) :
    c.Takes v (.enumOf name x.name.real) (.enumRef name dyn a) := by
  refine takes_of_form ha (Value.isNull_of_variantName? hv) rfl fun pending path => ?_
  rw [coerceForm]
  unfold coerceEnum
  rw [he, hv]
  simp only [hx]
  cases v with
  | text s => exact (passes_flag _).bind (passes_pure _)
  | _ => exact passes_pure _

/-! ## Containers -/

theorem takes_list {items ws : List Value} (ha : a.constraints = [])
    (hv : v.items? = some items) (h : List.Forall₂ (fun x y => c.Takes x y t) items ws) :
    c.Takes v (.list ws) (.list t a) := by
  refine takes_of_form ha (Value.isNull_of_items? hv) rfl fun pending path => ?_
  rw [coerceForm]
  split
  · next hnone =>
    rw [hv] at hnone
    cases hnone
  next items' hitems =>
  obtain rfl := Option.some.inj (hv.symm.trans hitems)
  refine Answers.map (passes_mapM ?_) Value.list
  rw [← map_val_attach_zipIdx items, List.forall₂_map_left_iff] at h
  exact h.imp fun p y hy => hy.coerce _ _

theorem passes_keepOrDrop {sink : Sink} {key : String} {r : Checked Value} (h : r.Passes w) :
    (keepOrDrop sink key r).Passes (some (key, w)) := by
  obtain ⟨n, hn, hfailed⟩ := h
  refine ⟨n, ?_, hfailed⟩
  unfold keepOrDrop
  rw [hn]

theorem takes_map {es ws : List (String × Value)} {key : Ty Authored} (ha : a.constraints = [])
    (hv : v.entries? = some es) (nd : (Entries.keys es).Nodup)
    (h : List.Forall₂ (fun p q => q.1 = p.1 ∧ c.Takes p.2 q.2 t) es ws) :
    c.Takes v (.map ws) (.map key t a) := by
  refine takes_of_form ha (Value.isNull_of_entries? hv) rfl fun pending path => ?_
  have hkeys : Entries.keys ws = Entries.keys es :=
    map_eq_of_forall₂ (h.imp fun _ _ hp => hp.1)
  rw [coerceForm]
  split
  · next hnone =>
    rw [hv] at hnone
    cases hnone
  next es' hes =>
  obtain rfl := Option.some.inj (hv.symm.trans hes)
  have hkept : (ws.map some).filterMap id = ws := by
    rw [List.filterMap_map]
    exact List.filterMap_some
  refine Passes.bind (a := ws.map some) (passes_mapM ?_) ?_
  · rw [List.forall₂_map_right_iff]
    rw [← List.attach_map_subtype_val es, List.forall₂_map_left_iff] at h
    refine h.imp ?_
    rintro p ⟨k, y⟩ ⟨rfl, hy⟩
    exact passes_keepOrDrop (hy.coerce _ _)
  · rw [hkept, Value.ofEntries, Entries.ofList_of_nodup (hkeys ▸ nd)]
    exact passes_pure _

/-! ## Classes -/

/-- What coercion makes of a field of a class: a null if it is missing and may be. -/
inductive TakesField (c : Coercer) (es : List (String × Value)) (f : FieldDef) : Value → Prop where
  | missing : f.name.lookup? es = none → c.schema.acceptsNull f.type = true →
      TakesField c es f .null
  | found {x y : Value} : f.name.lookup? es = some x → c.Takes x y f.type → TakesField c es f y

theorem takes_class {name : String} {mode : Mode} {d : ClassDef} {es fs : List (String × Value)}
    {dyn : Bool} (ha : a.constraints = []) (hd : c.schema.findClass? name mode = some d)
    (hrules : d.constraints = []) (hv : v.entries? = some es) (nd : (Entries.keys fs).Nodup)
    (h : List.Forall₂ (fun f p => p.1 = f.name.real ∧ TakesField c es f p.2) d.fields fs) :
    c.Takes v (.classOf name fs) (.classRef name mode dyn a) := by
  refine takes_of_form ha (Value.isNull_of_entries? hv) rfl fun pending path => ?_
  rw [coerceForm, hd]
  simp only
  split
  · next hnone =>
    rw [hv] at hnone
    cases hnone
  next es' hes =>
  obtain rfl := Option.some.inj (hv.symm.trans hes)
  refine Passes.bind (a := fs) (passes_mapM (h.imp ?_)) ?_
  · rintro f ⟨k, y⟩ ⟨rfl, hfield⟩
    cases hfield with
    | missing hnone hnull =>
      split
      · rw [if_pos hnull]
        exact (passes_flag _).bind (passes_pure _)
      · next hsome =>
        rw [hnone] at hsome
        cases hsome
    | found hfound htakes =>
      split
      · next hnone =>
        rw [hfound] at hnone
        cases hnone
      next x hx =>
      obtain rfl := Option.some.inj (hfound.symm.trans hx)
      split
      · next hnull =>
        -- a null of a required field would be refused
        rw [Bool.and_eq_true, Bool.not_eq_true'] at hnull
        rw [htakes.acceptsNull hnull.1] at hnull
        cases hnull.2
      · exact (htakes.coerce _ _).bind (passes_pure _)
  · have hown : ownConstraints d a = [] := by
      unfold ownConstraints
      rw [hrules]
      rfl
    rw [Value.ofFields, Entries.ofList_of_nodup nd, hown]
    exact (passes_evaluate_nil _).bind (passes_pure _)

/-! ## Unions and options -/

/-- A union takes a value by the first member that does not refuse it. -/
theorem takes_union {before after : List (Ty Authored)} {null : Option Authored}
    (ha : a.constraints = []) (hv : v.isNull = false) (hbefore : ∀ u ∈ before, c.Refuses v u)
    (h : c.Takes v w t) : c.Takes v w (.union (before ++ t :: after) null a) where
  form pending path := by
    rw [coerceForm, hv, Bool.false_and, if_neg Bool.false_ne_true]
    refine answers_firstFit (i := before.length) (by simp) ?_ ?_
    · simp only [List.getElem_map, List.getElem_zipIdx, List.getElem_attach,
        List.getElem_append_right (Nat.le_refl _), Nat.sub_self, List.getElem_cons_zero]
      refine Passes.bind (a := w) (h.coerce _ _) ?_
      split
      · exact (passes_flag _).bind (passes_pure w)
      · exact passes_pure w
    · intro j hj
      simp only [List.getElem_map, List.getElem_zipIdx, List.getElem_attach,
        List.getElem_append_left hj]
      obtain ⟨e, he⟩ := (hbefore before[j] (List.getElem_mem hj)).coerce pending path
      exact ⟨e, Checked.error_bind he _⟩
  unruled := ha
  isNull := h.isNull
  acceptsNull hn := absurd (hv.symm.trans hn) Bool.false_ne_true

theorem takes_null_union {ms : List (Ty Authored)} {n : Authored} (ha : a.constraints = []) :
    c.Takes .null .null (.union ms (some n) a) where
  form pending path := by
    rw [coerceForm]
    exact passes_pure _
  unruled := ha
  isNull := rfl
  acceptsNull _ := by
    rw [Schema.acceptsNull, Schema.acceptsNullAmong]
    rfl

theorem takes_null_optional (ht : t.optional.ann.constraints = []) :
    c.Takes .null .null t.optional := by
  unfold Ty.optional Ty.optionalOf at ht ⊢
  split
  · exact takes_prim ht rfl (fun _ => rfl) fun _ _ => passes_pure _
  · exact takes_null_union ht
  · exact takes_null_union ht
  · exact takes_null_union rfl

theorem Takes.optional (h : c.Takes v w t) : c.Takes v w t.optional := by
  by_cases hv : v.isNull = true
  · rw [Value.eq_null_of_isNull hv, Value.eq_null_of_isNull (h.isNull.trans hv)]
    exact takes_null_optional (Builder.constraints_optional h.unruled)
  rw [Bool.not_eq_true] at hv
  unfold Ty.optional Ty.optionalOf
  split
  · exact h
  · exact h
  · next ms a =>
    refine ⟨fun pending path => ?_, h.unruled, h.isNull, fun hn => ?_⟩
    · have hform := h.form pending path
      rw [coerceForm, hv, Bool.false_and, if_neg Bool.false_ne_true] at hform ⊢
      cases ms with
      | nil =>
        obtain ⟨n, hn, -⟩ := hform
        cases hn
      | cons m ms => rwa [firstFit_congr (.inl (by simp))]
    · rw [hv] at hn
      cases hn
  · show c.Takes v w (.union ([] ++ t :: []) _ _)
    exact takes_union rfl hv (by simp) h

end Coercer

end ShapeSchema
