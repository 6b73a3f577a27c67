import ShapeSchema.Proofs.Convert.Coercing
import ShapeSchema.Proofs.Native.Entries
import ShapeSchema.Proofs.Schema.Closed

/-!
# Values that conform to types

`Conforms` says by induction which values have the form of a type, its constraints judged by a
predicate `holds`. The main result is `Coercer.conforms_of_run`: whatever coercion answers conforms
to the type, and if no assert has failed, it does so with every assert passed, those of the types'
own annotations and those of the class definitions.
-/

namespace ShapeSchema

/-! ## Conformance -/

/-- Values of a primitive type. -/
inductive Prim.Holds : Prim → Value → Prop where
  | string (s : String) : Holds .string (.text s)
  | int (n : Int) : Holds .int (.int n)
  | float (d : Double) : Holds .float (.float d)
  | bool (b : Bool) : Holds .bool (.bool b)
  | null : Holds .null .null
  | media (m : Media) : Holds (.media m.kind) (.media m)

/-- The literals themselves, and enum values whose variant a text literal names. -/
inductive Literal.Holds : Literal → Value → Prop where
  | string (s : String) : Holds (.string s) (.text s)
  | variant (s name : String) : Holds (.string s) (.enumOf name s)
  | int (n : Int) : Holds (.int n) (.int n)
  | bool (b : Bool) : Holds (.bool b) (.bool b)

mutual

/-- A value has the form of a type, and `holds` of the constraints of every node and class on its
value. Nothing has the form of an arrow. -/
inductive Conforms (s : Schema) (holds : List Constraint → Value → Prop) :
    Value → Ty Authored → Prop where
  | top {v : Value} {a : Authored} : holds a.constraints v → Conforms s holds v (.top a)
  | prim {p : Prim} {v : Value} {a : Authored} :
      p.Holds v → holds a.constraints v → Conforms s holds v (.prim p a)
  | literal {l : Literal} {v : Value} {a : Authored} :
      l.Holds v → holds a.constraints v → Conforms s holds v (.literal l a)
  | enumRef {name : String} {dyn : Bool} {a : Authored} {e : EnumDef} {x : EnumValueDef} :
      s.findEnum? name = some e → x ∈ e.values → holds a.constraints (.enumOf name x.name.real) →
      Conforms s holds (.enumOf name x.name.real) (.enumRef name dyn a)
  | classRef {name : String} {mode : Mode} {dyn : Bool} {a : Authored} {d : ClassDef}
      {fs : List (String × Value)} :
      s.findClass? name mode = some d → FieldsConform s holds fs d.fields →
      holds d.constraints (.classOf name fs) → holds a.constraints (.classOf name fs) →
      Conforms s holds (.classOf name fs) (.classRef name mode dyn a)
  | list {vs : List Value} {item : Ty Authored} {a : Authored} :
      (∀ v ∈ vs, Conforms s holds v item) → holds a.constraints (.list vs) →
      Conforms s holds (.list vs) (.list item a)
  | map {es : List (String × Value)} {key value : Ty Authored} {a : Authored} :
      (∀ p ∈ es, Conforms s holds p.2 value) → holds a.constraints (.map es) →
      Conforms s holds (.map es) (.map key value a)
  | tuple {vs : List Value} {types : List (Ty Authored)} {a : Authored} :
      List.Forall₂ (Conforms s holds) vs types → holds a.constraints (.list vs) →
      Conforms s holds (.list vs) (.tuple types a)
  | aliasRef {name : String} {mode : Mode} {a : Authored} {e : Ty Authored} {v : Value} :
      s.expand? name = some e → Conforms s holds v e → holds a.constraints v →
      Conforms s holds v (.aliasRef name mode a)
  | unionNull {ms : List (Ty Authored)} {n a : Authored} :
      holds a.constraints .null → Conforms s holds .null (.union ms (some n) a)
  | unionMember {ms : List (Ty Authored)} {null : Option Authored} {a : Authored} {v : Value}
      {m : Ty Authored} :
      m ∈ ms → Conforms s holds v m → holds a.constraints v →
      Conforms s holds v (.union ms null a)

/-- Fields stand under the real names of a class's fields, in order. A field conforms to its type,
or is null where the type accepts null. -/
inductive FieldsConform (s : Schema) (holds : List Constraint → Value → Prop) :
    List (String × Value) → List FieldDef → Prop where
  | nil : FieldsConform s holds [] []
  | cons {f : FieldDef} {v : Value} {vs : List (String × Value)} {fs : List FieldDef} :
      Conforms s holds v f.type → FieldsConform s holds vs fs →
      FieldsConform s holds ((f.name.real, v) :: vs) (f :: fs)
  | null {f : FieldDef} {vs : List (String × Value)} {fs : List FieldDef} :
      s.acceptsNull f.type = true → FieldsConform s holds vs fs →
      FieldsConform s holds ((f.name.real, .null) :: vs) (f :: fs)

end

/-- The fields of every class have distinct names. -/
def Schema.DistinctFields (s : Schema) : Prop :=
  ∀ name mode d, s.findClass? name mode = some d → (d.fields.map (·.name.real)).Nodup

/-- Deriving a class keeps the names of its fields. -/
theorem Schema.distinctFields_of_classes {s : Schema}
    (h : ∀ d ∈ s.classes, (d.fields.map (·.name.real)).Nodup) : s.DistinctFields := by
  intro name mode d hd
  rcases mem_of_findClass? hd with hd | ⟨c, hc, rfl⟩
  · exact h d hd
  · have hnames : c.streamed.fields.map (·.name.real) = c.fields.map (·.name.real) := by
      unfold ClassDef.streamed
      rw [List.map_map]
      rfl
    exact hnames ▸ h c hc

/-- Coercion judges constraints as `holds` asks, as long as its notes are `good`. -/
structure Coercer.Judges (c : Coercer) (good : Notes → Prop)
    (holds : List Constraint → Value → Prop) : Prop where
  splits : Notes.Splits good
  evaluate : ∀ v cs n, (evaluateConstraints v cs c.eval c.sink).result = .ok ((), n) → good n →
    holds cs v
  own : ∀ d a v, holds (ownConstraints d a) v → holds a.constraints v → holds d.constraints v

namespace Coercer

variable {c : Coercer} {good : Notes → Prop} {holds : List Constraint → Value → Prop}

/-! ## Parts of coercion -/

theorem holds_of_coercePrim {p : Prim} {t : Ty Authored} {v w : Value} {path : Path} {n : Notes}
    (h : (coercePrim p t v path).result = .ok (w, n)) : p.Holds w := by
  unfold coercePrim at h
  split at h
  · obtain ⟨rfl, -⟩ := Checked.ok_pure.1 h
    exact .string _
  · obtain ⟨rfl, -⟩ := Checked.ok_pure.1 h
    exact .int _
  · obtain ⟨rfl, -⟩ := Checked.ok_pure.1 h
    exact .float _
  · obtain ⟨_, _, _, -, hp, -⟩ := Checked.ok_bind.1 h
    obtain ⟨rfl, -⟩ := Checked.ok_pure.1 hp
    exact .float _
  · obtain ⟨rfl, -⟩ := Checked.ok_pure.1 h
    exact .bool _
  · obtain ⟨rfl, -⟩ := Checked.ok_pure.1 h
    exact .null
  · split at h
    · next hk =>
      obtain ⟨rfl, -⟩ := Checked.ok_pure.1 h
      exact hk ▸ .media _
    · cases h
  · cases h

theorem holds_of_matches {l : Literal} {v : Value} (h : l.matches v = true) : l.Holds v := by
  unfold Literal.matches at h
  split at h
  · rw [beq_iff_eq] at h
    exact h ▸ .string _
  · rw [beq_iff_eq] at h
    exact h ▸ .variant _ _
  · rw [beq_iff_eq] at h
    exact h ▸ .int _
  · rw [beq_iff_eq] at h
    exact h ▸ .bool _
  · cases h

theorem fieldsConform_of_fieldRun {es : List (String × Value)} {path : Path} {fs : List FieldDef}
    {rs : List (String × Value)} (h : List.Forall₂ (FieldRun c good es path) fs rs)
    (hv : ∀ (f : FieldDef) v w key, (key, v) ∈ es → (c.coerce c.schema.aliasNames v f.type
      (path.field f.name.real)).Answers good w → Conforms c.schema holds w f.type) :
    FieldsConform c.schema holds rs fs := by
  induction h with
  | nil => exact .nil
  | cons hr _ ih =>
    cases hr with
    | null _ hnull => exact .null hnull ih
    | found hmem hw => exact .cons (hv _ _ _ _ hmem hw) ih

/-! ## Coercion -/

mutual

theorem coerce_sound (hs : c.schema.DistinctFields) (hj : c.Judges good holds)
    (pending : List String) (v : Value) (t : Ty Authored) (path : Path) (w : Value)
    (h : (c.coerce pending v t path).Answers good w) : Conforms c.schema holds w t := by
  rw [coerce] at h
  obtain ⟨w', hform, hrest⟩ := h.of_bind hj.splits
  obtain ⟨_, ⟨n, heval, hn⟩, hp⟩ := hrest.of_bind hj.splits
  obtain rfl := hp.of_pure
  exact coerceForm_sound hs hj pending v t path w' hform (hj.evaluate _ _ _ heval hn)
termination_by (sizeOf v, pending.length, sizeOf t, 1)

theorem coerceForm_sound (hs : c.schema.DistinctFields) (hj : c.Judges good holds)
    (pending : List String) (v : Value) (t : Ty Authored) (path : Path) (w : Value)
    (h : (c.coerceForm pending v t path).Answers good w) (hheld : holds t.ann.constraints w) :
    Conforms c.schema holds w t := by
  match t with
  | .top a => exact .top hheld
  | .prim p a =>
    rw [coerceForm] at h
    obtain ⟨n, h, -⟩ := h
    exact .prim (holds_of_coercePrim h) hheld
  | .literal l a =>
    obtain ⟨hm, rfl⟩ := answers_literal h
    exact .literal (holds_of_matches hm) hheld
  | .enumRef name d a =>
    obtain ⟨e, x, he, hx, rfl⟩ := answers_enumRef h
    exact .enumRef he hx hheld
  | .classRef name mode dyn a =>
    obtain ⟨d, es, fs, hd, hes, hfields, ⟨n, hown, hn⟩, rfl⟩ := answers_classRef hj.splits h
    have hof : Value.ofFields name fs = .classOf name fs := by
      unfold Value.ofFields
      rw [Entries.ofList_of_nodup]
      show (fs.map Prod.fst).Nodup
      rw [map_eq_of_forall₂ (hfields.imp fun _ _ hf => hf.name)]
      exact hs name mode d hd
    rw [hof] at hown hheld ⊢
    refine .classRef hd (fieldsConform_of_fieldRun hfields fun f v w key hmem hw => ?_)
      (hj.own d a _ (hj.evaluate _ _ _ hown hn) hheld) hheld
    have hlt := Value.sizeOf_entry hes hmem
    exact coerce_sound hs hj _ v f.type _ w hw
  | .list item a =>
    obtain ⟨items, ws, hitems, rfl, hws⟩ := answers_list hj.splits h
    refine .list (fun w hw => ?_) hheld
    obtain ⟨x, hx, here, hw⟩ := hws w hw
    have hlt := Value.sizeOf_item hitems hx
    exact coerce_sound hs hj _ x item here w hw
  | .map key value a =>
    obtain ⟨es, kept, hes, rfl, hkept⟩ := answers_map hj.splits h
    refine .map (fun p hp => ?_) hheld
    obtain ⟨q, hq, -, hw⟩ := hkept p (Entries.mem_of_mem_ofList hp)
    have hlt := Value.sizeOf_entry hes hq
    exact coerce_sound hs hj _ q.2 value _ p.2 hw
  | .tuple types a =>
    obtain ⟨items, ws, hitems, rfl, hws⟩ := answers_tuple hj.splits h
    refine .tuple (hws.imp fun w t hw => ?_) hheld
    obtain ⟨x, hx, here, hw⟩ := hw
    have hlt := Value.sizeOf_item hitems hx
    exact coerce_sound hs hj _ x t here w hw
  | .aliasRef name mode a =>
    obtain ⟨e, he, hmem, hw⟩ := answers_aliasRef h
    have hlt := length_erase_lt hmem
    exact .aliasRef he (coerce_sound hs hj _ v e path w hw) hheld
  | .arrow ps r a =>
    rw [coerceForm] at h
    obtain ⟨n, h, -⟩ := h
    cases h
  | .union ms null a =>
    rcases answers_union hj.splits h with ⟨rfl, a', rfl⟩ | ⟨m, hm, hw⟩
    · exact .unionNull hheld
    · have hlt := List.sizeOf_lt_of_mem hm
      exact .unionMember hm (coerce_sound hs hj pending v m path w hw) hheld
termination_by (sizeOf v, pending.length, sizeOf t, 0)
decreasing_by
  · exact Prod.Lex.left _ _ hlt
  · exact Prod.Lex.left _ _ hlt
  · exact Prod.Lex.left _ _ hlt
  · exact Prod.Lex.left _ _ hlt
  · exact Prod.Lex.right _ (Prod.Lex.left _ _ hlt)
  · apply Prod.Lex.right
    apply Prod.Lex.right
    apply Prod.Lex.left
    simp only [Ty.union.sizeOf_spec]
    omega

end

/-! ## Top theorems -/

theorem judges_nothing (c : Coercer) : c.Judges (fun _ => True) (fun _ _ => True) where
  splits _ _ _ := ⟨trivial, trivial⟩
  evaluate _ _ _ _ _ := trivial
  own _ _ _ _ _ := trivial

theorem judges_asserts (c : Coercer) :
    c.Judges (fun n => n.failedAsserts = []) (AssertsPass c.eval) where
  splits := splits_failedAsserts
  evaluate _ _ _ h hn := assertsPass_of_evaluate h hn
  own d a v hown ha x hx hassert := by
    by_cases hm : x ∈ a.constraints
    · exact ha x hm hassert
    · refine hown x (List.mem_filter.2 ⟨hx, ?_⟩) hassert
      simpa using hm

/-- What coercion answers conforms to the type. If no assert has failed, every assert of every node
and class on the way has passed. -/
theorem conforms_of_run {c : Coercer} (hs : c.schema.DistinctFields) {v w : Value}
    {t : Ty Authored} {path : Path} {notes : Notes}
    (h : (c.run v t path).result = .ok (w, notes)) :
    Conforms c.schema (fun _ _ => True) w t ∧
      (notes.failedAsserts = [] → Conforms c.schema (AssertsPass c.eval) w t) :=
  ⟨coerce_sound hs c.judges_nothing c.schema.aliasNames v t path w ⟨notes, h, trivial⟩,
    fun hn => coerce_sound hs c.judges_asserts c.schema.aliasNames v t path w ⟨notes, h, hn⟩⟩

/-- A class with a renamed and an optional field, and an assert that its references do not repeat.
-/
def userCoercer : Coercer where
  schema := {
    target := .classRef "User" .complete false {}
    enums := []
    classes := [{
      name := ⟨"User", none⟩
      fields := [⟨⟨"age", some "years"⟩, .prim .int {}, none, false⟩,
        ⟨⟨"nick", none⟩, .union [.prim .string {}] (some {}) {}, none, false⟩]
      constraints := [⟨.assert, some "adult", "this.age >= 18"⟩] }]
    recursiveClasses := []
    aliases := [] }
  eval expression _ := .ok (expression == "this.age >= 18")

theorem distinctFields_user : userCoercer.schema.DistinctFields :=
  Schema.distinctFields_of_classes (by decide)

theorem run_user : (userCoercer.run (.map [("years", .int 21)]) userCoercer.schema.target
    .root).result = .ok (.classOf "User" [("age", .int 21), ("nick", .null)],
      { flags := [⟨.optionalDefaulted, (Path.root.field "nick").text, none⟩] }) := by
  simp [run, userCoercer, coerce, coerceForm, Schema.findClass?, Schema.registered?,
    Value.entries?, Name.lookup?, Entries.find?, Schema.acceptsNull, Schema.acceptsNullAmong]
  rfl

theorem conforms_of_run_user : userCoercer.schema.DistinctFields ∧
    ∃ notes, (userCoercer.run (.map [("years", .int 21)]) userCoercer.schema.target .root).result
      = .ok (.classOf "User" [("age", .int 21), ("nick", .null)], notes) ∧
    Conforms userCoercer.schema (fun _ _ => True)
      (.classOf "User" [("age", .int 21), ("nick", .null)]) userCoercer.schema.target ∧
    Conforms userCoercer.schema (AssertsPass userCoercer.eval)
      (.classOf "User" [("age", .int 21), ("nick", .null)]) userCoercer.schema.target :=
  ⟨distinctFields_user, _, run_user, (conforms_of_run distinctFields_user run_user).1,
    (conforms_of_run distinctFields_user run_user).2 rfl⟩

end Coercer

end ShapeSchema
