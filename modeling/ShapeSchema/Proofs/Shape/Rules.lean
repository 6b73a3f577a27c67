import ShapeSchema.Proofs.Shape.Built
import ShapeSchema.Proofs.Shape.Terminates

/-!
# Constraints of built types

A struct or enum that has been met carries the constraints that it declares and no others
(`rulesKept_of_buildSchema`). No step of the builder but `visit` touches what has been met, so the
invariant is about what is visited alone (`Maintains`), and it holds of graphs with codecs and of
chains that do not end as well.
-/

namespace ShapeSchema

namespace Builder

variable {α β : Type} {g : Graph} {tag : String} {V : List (ShapeId × Ty Authored) → Prop}

/-! ## Runs that keep a property of what is visited -/

/-- A run that answers keeps a property of what has been visited. -/
def Maintains (V : List (ShapeId × Ty Authored) → Prop) (x : Build α) : Prop :=
  ∀ s a s', V s.visited → Ran x s a s' → V s'.visited

theorem Settles.maintains {x : Build α} (h : Settles V x V) : Maintains V x := by
  intro s a s' hs hran
  rcases h s hs with ⟨b, t, hran', ht⟩ | ⟨e, t, he⟩
  · obtain ⟨-, rfl⟩ := Prod.mk.inj (hran.symm.trans hran')
    exact ht
  · cases hran.symm.trans he

theorem maintains_pure (a : α) : Maintains V (pure a) := (settles_pure a).maintains

theorem maintains_fail (shape : Shape) (problem : BuildProblem) :
    Maintains V (fail shape problem : Build α) := (settles_fail shape problem).maintains

theorem maintains_throw (e : Fault) : Maintains V (throw e : Build α) :=
  fun _ _ _ _ h => absurd h not_ran_throw

theorem Maintains.bind {x : Build α} {f : α → Build β} (hx : Maintains V x)
    (hf : ∀ a, Maintains V (f a)) : Maintains V (x >>= f) := by
  intro s b s' hs hran
  obtain ⟨a, t, h1, h2⟩ := ran_bind.1 hran
  exact hf a t b s' (hx s a t hs h1) h2

theorem maintains_mapM {f : α → Build β} {xs : List α} (h : ∀ x ∈ xs, Maintains V (f x)) :
    Maintains V (xs.mapM f) := by
  induction xs with
  | nil => exact maintains_pure []
  | cons x xs ih =>
    rw [List.mapM_cons]
    refine (h x List.mem_cons_self).bind fun y => ?_
    exact (ih fun z hz => h z (List.mem_cons_of_mem _ hz)).bind fun ys => maintains_pure (y :: ys)

theorem maintains_forM {f : α → Build PUnit} {xs : List α} (h : ∀ x ∈ xs, Maintains V (f x)) :
    Maintains V (xs.forM f) := by
  induction xs with
  | nil => exact maintains_pure ()
  | cons x xs ih =>
    exact (h x List.mem_cons_self).bind fun _ => ih fun z hz => h z (List.mem_cons_of_mem _ hz)

theorem ran_liftExcept {e : Except Fault α} {s s' : BuildState} {a : α}
    (h : Ran (fieldType.liftExcept e) s a s') : s = s' := by
  cases e with
  | error e => exact absurd h not_ran_throw
  | ok a => exact (ran_pure.1 h).2

/-! ## Fields -/

theorem maintains_intReprType (repr : IntRepr) : ∀ (fuel : Nat) (id : ShapeId),
    Maintains V (intReprType g repr fuel id) := by
  intro fuel
  induction fuel with
  | zero => exact fun id => maintains_throw _
  | succ fuel ih =>
    intro id
    unfold intReprType
    split
    · exact (ih _).bind fun _ => maintains_pure _
    · exact (ih _).bind fun _ => maintains_pure _
    · exact ih _
    · split
      · exact maintains_pure _
      · exact maintains_fail _ _
    · exact maintains_fail _ _

section
variable {self : ShapeId → Build (Ty Authored)} (hself : ∀ id, Maintains V (self id))
include hself

theorem maintains_entryClass (key value : ShapeId) (ctx : FieldContext) :
    Maintains V (entryClass self key value ctx) := by
  unfold entryClass
  refine (hself key).bind fun k => ?_
  refine (hself value).bind fun x => ?_
  exact (settles_registerClass _).maintains.bind fun _ => maintains_pure _

theorem maintains_keyReprType (repr : KeyRepr) (ctx : FieldContext) : ∀ (fuel : Nat) (id : ShapeId),
    Maintains V (keyReprType g self repr ctx fuel id) := by
  intro fuel
  induction fuel with
  | zero => exact fun id => maintains_throw _
  | succ fuel ih =>
    intro id
    unfold keyReprType
    split
    · exact (ih _).bind fun _ => maintains_pure _
    · exact (ih _).bind fun _ => maintains_pure _
    · exact ih _
    · split
      · exact (hself _).bind fun _ => maintains_pure _
      · exact (maintains_entryClass hself _ _ _).bind fun _ => maintains_pure _
    · exact hself _

theorem maintains_fieldType (f : Field) (ctx : FieldContext) :
    Maintains V (fieldType g self f ctx) := by
  unfold fieldType
  split
  · next codec _ =>
    -- a codec may register definitions, but it meets no struct or enum
    intro s t s' hs hran
    split at hran
    · obtain ⟨_, _, hget, h1⟩ := ran_bind.1 hran
      obtain ⟨rfl, rfl⟩ := ran_get.1 hget
      obtain ⟨registry, s1, hregister, h2⟩ := ran_bind.1 h1
      obtain ⟨_, s2, hset, h3⟩ := ran_bind.1 h2
      rw [← ran_liftExcept h3, ← ran_set.1 hset]
      exact hs
    · rwa [← ran_liftExcept hran]
  · split
    · exact maintains_intReprType _ _ _
    · exact maintains_keyReprType hself _ _ _ _
    · exact hself _

theorem maintains_fieldDefs (owner : Shape) (ownerName : String) (variant : Option Variant)
    (fields : List Field) : Maintains V (fieldDefs g self owner ownerName variant fields) := by
  refine maintains_mapM fun f _ => ?_
  unfold fieldDef
  refine (settles_pushTrail _).maintains.bind fun _ => ?_
  refine (maintains_fieldType hself _ _).bind fun t => ?_
  refine (settles_validConstraints _ _ _).maintains.bind fun cs => ?_
  exact settles_popTrail.maintains.bind fun _ => maintains_pure _

theorem maintains_variantClass (owner : Shape) (internal rendered tag : String) (v : Variant) :
    Maintains V (variantClass g self owner internal rendered tag v) := by
  unfold variantClass
  dsimp only
  split
  · intro s t s' _ hran
    obtain ⟨_, _, hfail, -⟩ := ran_bind.1 hran
    exact absurd hfail not_ran_fail
  · refine (settles_pushTrail _).maintains.bind fun _ => ?_
    refine (maintains_fieldDefs hself _ _ _ _).bind fun _ => ?_
    exact settles_popTrail.maintains.bind fun _ => (settles_registerClass _).maintains

/-- One shape keeps a property of what is visited if structs and enums do. -/
theorem maintains_step {id : ShapeId}
    (hstruct : ∀ d fields, g.shape id = .struct d fields →
      Maintains V (structType g self id d fields))
    (henum : ∀ d own u vs, g.shape id = .enum d own u vs →
      Maintains V (enumType g tag self id d own u vs)) :
    Maintains V (step g tag self id) := by
  unfold step
  intro s t s' hkept hran
  obtain ⟨_, _, hget, h1⟩ := ran_bind.1 hran
  obtain ⟨rfl, rfl⟩ := ran_get.1 hget
  split at h1
  · exact maintains_pure _ s t s' hkept h1
  split at h1
  · exact (settles_scalarType _).maintains s t s' hkept h1
  · exact ((hself _).bind fun _ => maintains_pure _) s t s' hkept h1
  · exact ((hself _).bind fun _ => maintains_pure _) s t s' hkept h1
  · refine ((hself _).bind fun v => ?_) s t s' hkept h1
    split
    · exact maintains_pure _
    · exact maintains_pure _
    · exact maintains_pure _
    · exact maintains_fail _ _
  · exact hself _ s t s' hkept h1
  · next hs => exact hstruct _ _ hs s t s' hkept h1
  · next hs => exact henum _ _ _ _ hs s t s' hkept h1
  · exact absurd h1 not_ran_fail

end

/-! ## Declared constraints -/

/-- The constraints that a struct or enum declares. -/
def declaredRules (x : Shape) : List Constraint :=
  constraintsOf x.declaration.checks x.declaration.asserts

/-- Structs and enums that have been met carry the constraints that they declare. -/
def RulesKept (g : Graph) (vs : List (ShapeId × Ty Authored)) : Prop :=
  ∀ p ∈ vs, p.2.ann.constraints = declaredRules (g.shape p.1)

theorem constraints_withConstraints (t : Ty Authored) (cs : List Constraint) :
    (t.withConstraints cs).ann.constraints = t.ann.constraints ++ cs := by
  unfold Ty.withConstraints
  split
  · next hempty => rw [List.isEmpty_iff.1 hempty, List.append_nil]
  · cases t <;> rfl

theorem maintains_visit {id : ShapeId} {t : Ty Authored}
    (ht : t.ann.constraints = declaredRules (g.shape id)) :
    Maintains (RulesKept g) (visit id t) := by
  intro s _ s' hs hran
  obtain rfl := ran_modify.1 hran
  intro p hp
  rcases List.mem_append.1 hp with hp | hp
  · exact hs p hp
  · rw [List.mem_singleton.1 hp]
    exact ht

section
variable {self : ShapeId → Build (Ty Authored)} (hself : ∀ id, Maintains (RulesKept g) (self id))
include hself

theorem maintains_structType {id : ShapeId} {d : Declared} {fields : List Field}
    (hs : g.shape id = .struct d fields) :
    Maintains (RulesKept g) (structType g self id d fields) := by
  unfold structType
  refine (settles_internalName _ _).maintains.bind fun n => ?_
  intro s t s' hkept hran
  obtain ⟨cs, s1, hcs, h1⟩ := ran_bind.1 hran
  obtain ⟨rfl, rfl⟩ := ran_validConstraints hcs
  refine Maintains.bind (maintains_visit ?_) (fun _ => ?_) s t s' hkept h1
  · rw [constraints_withConstraints, hs]
    rfl
  · refine (maintains_fieldDefs hself _ _ _ _).bind fun _ => ?_
    exact (settles_registerClass _).maintains.bind fun _ => maintains_pure _

theorem maintains_enumType {id : ShapeId} {d : Declared} {own : Option String} {u : Bool}
    {vs : List Variant} (hs : g.shape id = .enum d own u vs) :
    Maintains (RulesKept g) (enumType g tag self id d own u vs) := by
  unfold enumType
  dsimp only
  refine (settles_internalName _ _).maintains.bind fun n => ?_
  intro s t s' hkept hran
  obtain ⟨cs, s1, hcs, h1⟩ := ran_bind.1 hran
  obtain ⟨rfl, rfl⟩ := ran_validConstraints hcs
  have met (t : Ty Authored) (ht : t.ann.constraints = []) :
      Maintains (RulesKept g)
        (visit id (t.withConstraints (constraintsOf d.checks d.asserts))) := by
    refine maintains_visit ?_
    rw [constraints_withConstraints, ht, hs]
    rfl
  split at h1
  · refine (met _ rfl).bind (fun _ => ?_) s t s' hkept h1
    refine (maintains_forM fun v _ => ?_).bind fun _ => maintains_pure _
    exact maintains_variantClass hself _ _ _ _ v
  · split at h1
    · exact (met _ rfl).bind (fun _ => maintains_pure _) s t s' hkept h1
    · refine (met _ rfl).bind (fun _ => ?_) s t s' hkept h1
      exact (settles_registerEnum _).maintains.bind fun _ => maintains_pure _

end

theorem maintains_typeWithin : ∀ (fuel : Nat) (id : ShapeId),
    Maintains (RulesKept g) (typeWithin g tag fuel id) := by
  intro fuel
  induction fuel with
  | zero => exact fun id => maintains_throw _
  | succ fuel ih =>
    exact fun id => maintains_step ih (fun _ _ hs => maintains_structType ih hs)
      fun _ _ _ _ hs => maintains_enumType ih hs

/-- The walk behind a schema that was built starts with nothing visited. -/
theorem ran_of_buildSchema {root : ShapeId} {b : Bundle} {s : BuildState}
    (h : buildSchema g root tag = (.ok b, s)) :
    ∃ t s₀, s₀.visited = [] ∧ Ran (typeWithin g tag (depthBound g) root) s₀ t s := by
  unfold buildSchema at h
  rcases hr : (build g tag root).run.run {} with ⟨r, s'⟩
  rw [hr] at h
  cases r with
  | error e => cases h
  | ok t =>
    cases h
    obtain ⟨_, s1, hmod, hbuild⟩ := ran_bind.1 (show Ran (build g tag root) {} t s from hr)
    obtain rfl := ran_modify.1 hmod
    exact ⟨t, _, rfl, hbuild⟩

/-- Every struct and enum that a schema was built from carries the constraints that it declares. -/
theorem rulesKept_of_buildSchema {root : ShapeId} {b : Bundle} {s : BuildState}
    (h : buildSchema g root tag = (.ok b, s)) : RulesKept g s.visited := by
  obtain ⟨t, s₀, hvisited, hran⟩ := ran_of_buildSchema h
  exact maintains_typeWithin _ root _ t s (fun p hp => by rw [hvisited] at hp; cases hp) hran

end Builder

/-! ## Shapes without constraints -/

/-- Neither a struct or enum nor any of its fields has checks or asserts. -/
structure Shape.Unruled (x : Shape) : Prop where
  own : x.declaration.checks = [] ∧ x.declaration.asserts = []
  fields : ∀ fs ∈ x.fieldGroups, ∀ f ∈ fs, f.checks = [] ∧ f.asserts = []

instance : DecidablePred Shape.Unruled := fun x =>
  decidable_of_iff ((x.declaration.checks = [] ∧ x.declaration.asserts = []) ∧
    ∀ fs ∈ x.fieldGroups, ∀ f ∈ fs, f.checks = [] ∧ f.asserts = [])
    ⟨fun h => ⟨h.1, h.2⟩, fun h => ⟨h.own, h.fields⟩⟩

namespace Builder

variable {s : BuildState} {id : ShapeId} {t : Ty Authored}

theorem declaredRules_of_unruled {x : Shape} (h : x.Unruled) : declaredRules x = [] := by
  unfold declaredRules
  rw [h.own.1, h.own.2]
  rfl

theorem constraints_optional (h : t.ann.constraints = []) : t.optional.ann.constraints = [] := by
  unfold Ty.optional Ty.optionalOf
  split <;> first | exact h | rfl

theorem withConstraints_of_unruled {t : Ty Authored} {cs : List Constraint}
    (h : (t.withConstraints cs).ann.constraints = []) : t.withConstraints cs = t := by
  rw [constraints_withConstraints, List.append_eq_nil_iff] at h
  rw [h.2]
  rfl

theorem optional_of_isOptional {t : Ty Authored} (h : t.isOptional = true) : t.optional = t := by
  unfold Ty.isOptional at h
  split at h
  · rfl
  · obtain ⟨n, rfl⟩ := Option.isSome_iff_exists.1 h
    rfl
  · cases h

/-- The type of a field without constraints is optional if it has a default. -/
theorem type_of_unruled {f : Field} (h : f.checks = [] ∧ f.asserts = []) (t : Ty Authored) :
    (definedField f t).type = if f.default.isSome then t.optional else t := by
  unfold definedField
  rw [h.1, h.2]
  show (if f.default.isSome && !t.isOptional then t.optional else t) = _
  cases hd : f.default.isSome with
  | false => rfl
  | true =>
    cases ho : t.isOptional with
    | false => rfl
    | true => exact (optional_of_isOptional ho).symm

theorem HasType.unruled (hkept : RulesKept g s.visited) (h : HasType g s id t)
    (hbelow : g.Below Shape.Unruled id) : t.ann.constraints = [] := by
  induction h with
  | declared _ hfound =>
    rw [hkept _ (Entries.mem_of_find?_eq_some hfound)]
    exact declaredRules_of_unruled hbelow.self
  | @scalar _ x _ _ ht => cases x <;> cases ht <;> rfl
  | option hs _ ih => exact constraints_optional (ih (hbelow.option hs))
  | pointer hs _ ih => exact ih (hbelow.pointer hs)
  | list | map => rfl

theorem IntType.unruled {repr : IntRepr} (h : IntType g repr id t) : t.ann.constraints = [] := by
  induction h with
  | option _ _ ih => exact constraints_optional ih
  | pointer _ _ ih => exact ih
  | list | scalar => rfl

theorem KeyType.unruled (hkept : RulesKept g s.visited) {repr : KeyRepr} {f : Field}
    {ctx : FieldContext} (h : KeyType g s repr f ctx id t) (hbelow : g.Below Shape.Unruled id) :
    t.ann.constraints = [] := by
  induction h with
  | option hs _ ih => exact constraints_optional (ih (hbelow.option hs))
  | pointer hs _ ih => exact ih (hbelow.pointer hs)
  | list | text | pairs => rfl
  | other _ ht => exact ht.unruled hkept hbelow

theorem BareType.unruled (hkept : RulesKept g s.visited) {f : Field} {ctx : FieldContext}
    (h : BareType g s f ctx t) (hbelow : g.Below Shape.Unruled f.shape) :
    t.ann.constraints = [] := by
  cases h with
  | ints _ ht => exact ht.unruled
  | keyed _ _ ht => exact ht.unruled hkept hbelow
  | plain _ _ ht => exact ht.unruled hkept hbelow

end Builder

end ShapeSchema
