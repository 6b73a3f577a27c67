import Mathlib.Logic.Relation
import ShapeSchema.Convert.Converter
import ShapeSchema.Proofs.Shape.Names

/-!
# Types and definitions that a builder has made

`HasType` says which type a shape has, given the types of the structs and enums that have been met.
`Defines` says which class stands for a struct, a variant or an entry of a map written as pairs, and
`Complete` that everything a struct or enum needs is registered. All of them survive growth.
-/

namespace ShapeSchema

/-! ## Shapes below a shape -/

/-- Structs and enums, the shapes that have names. -/
def Shape.isDeclared : Shape → Bool
  | .struct _ _ | .enum _ _ _ _ => true
  | _ => false

/-- What is declared of a struct or enum; other shapes have an identifier only. -/
def Shape.declaration : Shape → Declared
  | .struct d _ => d
  | .enum d _ _ _ => d
  | s => { ident := s.ident }

/-- The fields of a struct, and those of every variant of an enum. -/
def Shape.fieldGroups : Shape → List (List Field)
  | .struct _ fields => [fields]
  | .enum _ _ _ variants => variants.map (·.fields)
  | _ => []

/-- The shapes that a shape refers to. -/
def Shape.children : Shape → List ShapeId
  | .option inner | .list _ inner | .pointer _ inner => [inner]
  | .map _ key value => [key, value]
  | s => s.fieldGroups.flatMap fun fs => fs.map (·.shape)

namespace Graph

/-- A shape refers to another, directly or through others. -/
def Reaches (g : Graph) : ShapeId → ShapeId → Prop :=
  Relation.ReflTransGen fun a b => b ∈ (g.shape a).children

/-- A property of every shape that a shape reaches, itself included. -/
def Below (g : Graph) (P : Shape → Prop) (id : ShapeId) : Prop := ∀ i, g.Reaches id i → P (g.shape i)

theorem Below.self {g : Graph} {P : Shape → Prop} {id : ShapeId} (h : g.Below P id) :
    P (g.shape id) := h id .refl

theorem Below.child {g : Graph} {P : Shape → Prop} {id i : ShapeId} (h : g.Below P id)
    (hi : i ∈ (g.shape id).children) : g.Below P i := fun j hj => h j (.head hi hj)

section
variable {g : Graph} {P : Shape → Prop} {id inner k v : ShapeId} (h : g.Below P id)
include h

theorem Below.option (hs : g.shape id = .option inner) : g.Below P inner :=
  h.child (by rw [hs]; exact List.mem_cons_self)

theorem Below.pointer {kind : PointerKind} (hs : g.shape id = .pointer kind inner) :
    g.Below P inner := h.child (by rw [hs]; exact List.mem_cons_self)

theorem Below.item {kind : Collection} (hs : g.shape id = .list kind inner) : g.Below P inner :=
  h.child (by rw [hs]; exact List.mem_cons_self)

theorem Below.key {kind : Keyed} (hs : g.shape id = .map kind k v) : g.Below P k :=
  h.child (by rw [hs]; simp [Shape.children])

theorem Below.value {kind : Keyed} (hs : g.shape id = .map kind k v) : g.Below P v :=
  h.child (by rw [hs]; simp [Shape.children])

end

/-- What holds of the shapes that a graph lists, and of what stands for all others, holds of every
shape. -/
theorem forall_shape {g : Graph} {P : Shape → Prop} (hlisted : ∀ x ∈ g.shapes.toList, P x)
    (hother : P (.foreign .opaqueForm "")) (i : ShapeId) : P (g.shape i) := by
  by_cases hi : i < g.shapes.size
  · have hshape : g.shape i = g.shapes[i] := by simp [shape, Array.getD, hi]
    exact hshape ▸ hlisted _ (Array.getElem_mem_toList hi)
  · have hshape : g.shape i = .foreign .opaqueForm "" := by simp [shape, Array.getD, hi]
    exact hshape ▸ hother

/-- The map behind options, lists and pointers. -/
def mapWithin? (g : Graph) : Nat → ShapeId → Option (Keyed × ShapeId × ShapeId)
  | 0, _ => none
  | fuel + 1, id =>
    match g.shape id with
    | .option inner | .list _ inner | .pointer _ inner => mapWithin? g fuel inner
    | .map kind key value => some (kind, key, value)
    | _ => none

/-- The map that a field holds. -/
def mapBelow? (g : Graph) (id : ShapeId) : Option (Keyed × ShapeId × ShapeId) :=
  g.mapWithin? (g.size + 1) id

end Graph

/-- No field has a codec. -/
def Shape.CodecFree (s : Shape) : Prop := ∀ fs ∈ s.fieldGroups, ∀ f ∈ fs, f.codec = none

/-- No struct or variant has two fields of the same name. -/
def Shape.DistinctFields (s : Shape) : Prop := ∀ fs ∈ s.fieldGroups, (fs.map (·.name)).Nodup

instance : DecidablePred Shape.CodecFree := fun s =>
  inferInstanceAs (Decidable (∀ fs ∈ s.fieldGroups, ∀ f ∈ fs, f.codec = none))

instance : DecidablePred Shape.DistinctFields := fun s =>
  inferInstanceAs (Decidable (∀ fs ∈ s.fieldGroups, (fs.map (·.name)).Nodup))

theorem Shape.mem_children_of_field {s : Shape} {fs : List Field} (hs : fs ∈ s.fieldGroups)
    {f : Field} (hf : f ∈ fs) : f.shape ∈ s.children := by
  have : f.shape ∈ s.fieldGroups.flatMap fun fs => fs.map (·.shape) :=
    List.mem_flatMap.2 ⟨fs, hs, List.mem_map.2 ⟨f, hf, rfl⟩⟩
  cases s with
  | struct d fields => exact this
  | enum d tag u vs => exact this
  | _ => cases hs

/-! ## Classes -/

/-- What a class stands for, with the number and name of the struct or enum it belongs to. -/
inductive ClassSource where
  | struct (id : ShapeId) (owner : String)
  | variant (id : ShapeId) (owner : String) (v : Variant)
  | entry (id : ShapeId) (owner : String) (v : Option Variant) (f : Field)

/-- The name of the class. -/
def ClassSource.className : ClassSource → String
  | struct _ owner => owner
  | variant _ owner v => variantClassName owner v
  | entry _ owner v f => (entryClassName (ownerContext owner v f)).1

/-- Does a field write the maps it holds as pairs? -/
def Graph.writesPairs (g : Graph) (f : Field) : Bool :=
  !f.skip && f.intRepr.isNone && f.keyRepr == some .pairs && (g.mapBelow? f.shape).isSome

/-- The entry classes of fields. -/
def entrySources (g : Graph) (id : ShapeId) (owner : String) (v : Option Variant)
    (fields : List Field) : List ClassSource :=
  (fields.filter g.writesPairs).map (.entry id owner v)

/-- The classes of a struct or enum with its name. -/
def sourcesOf (g : Graph) (p : ShapeId × String) : List ClassSource :=
  match g.shape p.1 with
  | .struct _ fields => .struct p.1 p.2 :: entrySources g p.1 p.2 none fields
  | .enum _ _ _ variants =>
    if isDataEnum variants then
      variants.flatMap fun v => .variant p.1 p.2 v :: entrySources g p.1 p.2 (some v) v.fields
    else []
  | _ => []

/-- The classes of all structs and enums that have received names. -/
def classSources (g : Graph) (names : List (ShapeId × String)) : List ClassSource :=
  names.flatMap (sourcesOf g)

theorem mem_classSources_of_extends {g : Graph} {names names' : List (ShapeId × String)}
    (h : names <+: names') {src : ClassSource} (hsrc : src ∈ classSources g names) :
    src ∈ classSources g names' := by
  obtain ⟨p, hp, hs⟩ := List.mem_flatMap.1 hsrc
  exact List.mem_flatMap.2 ⟨p, h.subset hp, hs⟩

namespace Builder

/-! ## Types of shapes -/

/-- The type of a scalar, if it has one. -/
def scalarType? (s : Scalar) : Option (Ty Authored) :=
  match s with
  | .bool => some (.prim .bool {})
  | .char | .string => some (.prim .string {})
  | .f32 | .f64 => some (.prim .float {})
  | .unit => some (.prim .null {})
  | s => if s.isWide then none else some (.prim .int {})

/-- May a map of this kind have keys of this shape? -/
def keyAllowed (kind : Keyed) (key : Shape) : Prop :=
  kind = .object ∨ key = .scalar .string ∨ key = .scalar .char

/-- A shape has a type in a state. -/
inductive HasType (g : Graph) (s : BuildState) : ShapeId → Ty Authored → Prop where
  | declared {id : ShapeId} {t : Ty Authored} :
      (g.shape id).isDeclared = true → Entries.find? s.visited id = some t → HasType g s id t
  | scalar {id : ShapeId} {x : Scalar} {t : Ty Authored} :
      g.shape id = .scalar x → scalarType? x = some t → HasType g s id t
  | option {id inner : ShapeId} {t : Ty Authored} :
      g.shape id = .option inner → HasType g s inner t → HasType g s id t.optional
  | list {id inner : ShapeId} {kind : Collection} {t : Ty Authored} :
      g.shape id = .list kind inner → HasType g s inner t → HasType g s id (.list t {})
  | map {id key value : ShapeId} {kind : Keyed} {t : Ty Authored} :
      g.shape id = .map kind key value → keyAllowed kind (g.unwrap key) → HasType g s value t →
      HasType g s id (.map (.prim .string {}) t {})
  | pointer {id inner : ShapeId} {kind : PointerKind} {t : Ty Authored} :
      g.shape id = .pointer kind inner → HasType g s inner t → HasType g s id t

/-- The primitive type of whole numbers written in another way. -/
def reprPrim : IntRepr → Prim
  | .text => .string
  | .int64 => .int

/-- The type of a shape whose whole numbers are written in another way. -/
inductive IntType (g : Graph) (repr : IntRepr) : ShapeId → Ty Authored → Prop where
  | option {id inner : ShapeId} {t : Ty Authored} :
      g.shape id = .option inner → IntType g repr inner t → IntType g repr id t.optional
  | list {id inner : ShapeId} {kind : Collection} {t : Ty Authored} :
      g.shape id = .list kind inner → IntType g repr inner t → IntType g repr id (.list t {})
  | pointer {id inner : ShapeId} {kind : PointerKind} {t : Ty Authored} :
      g.shape id = .pointer kind inner → IntType g repr inner t → IntType g repr id t
  | scalar {id : ShapeId} {x : Scalar} :
      g.shape id = .scalar x → x.isInteger = true → IntType g repr id (.prim (reprPrim repr) {})

/-- A class of this name is registered. -/
def HasClass (s : BuildState) (name : String) : Prop :=
  ∃ c ∈ s.registry.classes, c.name.real = name

/-- The type of a shape below a field `f` whose maps are written in another way. -/
inductive KeyType (g : Graph) (s : BuildState) (repr : KeyRepr) (f : Field) (ctx : FieldContext) :
    ShapeId → Ty Authored → Prop where
  | option {id inner : ShapeId} {t : Ty Authored} :
      g.shape id = .option inner → KeyType g s repr f ctx inner t →
      KeyType g s repr f ctx id t.optional
  | list {id inner : ShapeId} {kind : Collection} {t : Ty Authored} :
      g.shape id = .list kind inner → KeyType g s repr f ctx inner t →
      KeyType g s repr f ctx id (.list t {})
  | pointer {id inner : ShapeId} {kind : PointerKind} {t : Ty Authored} :
      g.shape id = .pointer kind inner → KeyType g s repr f ctx inner t →
      KeyType g s repr f ctx id t
  | text {id key value : ShapeId} {kind : Keyed} {t : Ty Authored} :
      g.shape id = .map kind key value → g.mapBelow? f.shape = some (kind, key, value) →
      repr = .text → HasType g s value t → KeyType g s repr f ctx id (.map (.prim .string {}) t {})
  | pairs {id key value : ShapeId} {kind : Keyed} {k t : Ty Authored} :
      g.shape id = .map kind key value → g.mapBelow? f.shape = some (kind, key, value) →
      repr = .pairs → HasType g s key k → HasType g s value t →
      HasClass s (entryClassName ctx).1 →
      KeyType g s repr f ctx id (.list (.classRef (entryClassName ctx).1 .complete false {}) {})
  | other {id : ShapeId} {t : Ty Authored} :
      (g.shape id).isDeclared = true ∨ (∃ x, g.shape id = .scalar x) → HasType g s id t →
      KeyType g s repr f ctx id t

/-! ## Fields and definitions -/

/-- The type of a field before its constraints. -/
inductive BareType (g : Graph) (s : BuildState) (f : Field) (ctx : FieldContext) :
    Ty Authored → Prop where
  | ints {repr : IntRepr} {t : Ty Authored} :
      f.intRepr = some repr → IntType g repr f.shape t → BareType g s f ctx t
  | keyed {repr : KeyRepr} {t : Ty Authored} :
      f.intRepr = none → f.keyRepr = some repr → KeyType g s repr f ctx f.shape t →
      BareType g s f ctx t
  | plain {t : Ty Authored} :
      f.intRepr = none → f.keyRepr = none → HasType g s f.shape t → BareType g s f ctx t

/-- The definition of a field with a type before constraints: a field with a default is optional. -/
def definedField (f : Field) (bare : Ty Authored) : FieldDef :=
  let type := bare.withConstraints (constraintsOf f.checks f.asserts)
  { name := .of f.name f.rendered
    type := if f.default.isSome && !type.isOptional then type.optional else type
    description := f.description.or (docDescription f.doc) }

/-- A field's definition. -/
structure DefinesField (g : Graph) (s : BuildState) (owner : String) (v : Option Variant) (f : Field)
    (d : FieldDef) : Prop where
  bare : ∃ t, BareType g s f (ownerContext owner v f) t ∧ d = definedField f t

theorem DefinesField.name {g : Graph} {s : BuildState} {owner : String} {v : Option Variant}
    {f : Field} {d : FieldDef} (h : DefinesField g s owner v f d) :
    d.name = .of f.name f.rendered := by
  obtain ⟨t, -, rfl⟩ := h.bare
  rfl

theorem DefinesField.type {g : Graph} {s : BuildState} {owner : String} {v : Option Variant}
    {f : Field} {d : FieldDef} (h : DefinesField g s owner v f d) :
    ∃ t cs, BareType g s f (ownerContext owner v f) t ∧
      (d.type = t.withConstraints cs ∨ d.type = (t.withConstraints cs).optional) := by
  obtain ⟨t, ht, rfl⟩ := h.bare
  refine ⟨t, constraintsOf f.checks f.asserts, ht, ?_⟩
  unfold definedField
  simp only
  split
  · exact .inr rfl
  · exact .inl rfl

/-- The definitions of the fields that are not skipped. -/
def DefinesFields (g : Graph) (s : BuildState) (owner : String) (v : Option Variant)
    (fields : List Field) (defs : List FieldDef) : Prop :=
  List.Forall₂ (DefinesField g s owner v) (fields.filter fun f => !f.skip) defs

/-- The field that tells the variant. -/
def tagDef (tag : String) (v : Variant) : FieldDef :=
  ⟨⟨tag, none⟩, .literal (.string v.rendered) {}, none, false⟩

/-- Neither name of a field is the tag. -/
def TagFree (tag : String) (fields : List Field) : Prop :=
  ∀ f ∈ fields, f.name ≠ tag ∧ f.rendered ≠ tag

/-- The fields of the class that stands for a source. -/
inductive DefinesClass (g : Graph) (tag : String) (s : BuildState) :
    ClassSource → List FieldDef → Prop where
  | struct {id : ShapeId} {owner : String} {d : Declared} {fields : List Field}
      {defs : List FieldDef} :
      g.shape id = .struct d fields → DefinesFields g s owner none fields defs →
      DefinesClass g tag s (.struct id owner) defs
  | variant {id : ShapeId} {owner : String} {d : Declared} {own : Option String} {u : Bool}
      {vs : List Variant} {v : Variant} {defs : List FieldDef} :
      g.shape id = .enum d own u vs → TagFree (own.getD tag) v.fields →
      DefinesFields g s owner (some v) v.fields defs →
      DefinesClass g tag s (.variant id owner v) (tagDef (own.getD tag) v :: defs)
  | entry {id : ShapeId} {owner : String} {v : Option Variant} {f : Field} {kind : Keyed}
      {key value : ShapeId} {k x : Ty Authored} :
      g.mapBelow? f.shape = some (kind, key, value) → HasType g s key k → HasType g s value x →
      DefinesClass g tag s (.entry id owner v f)
        [⟨⟨"key", none⟩, k, none, false⟩, ⟨⟨"value", none⟩, x, none, false⟩]

/-- The class of a source before its fields. -/
def classHead (g : Graph) : ClassSource → ClassDef
  | .struct id owner =>
    let d := (g.shape id).declaration
    { name := .of owner d.rendered
      description := d.description.or (docDescription d.doc)
      fields := []
      constraints := constraintsOf d.checks d.asserts }
  | .variant id owner v =>
    { name := .of (variantClassName owner v) ((g.shape id).declaration.rendered ++ "_" ++ v.rendered)
      description := v.description.or (docDescription v.doc)
      fields := [] }
  | .entry _ owner v f =>
    { name := .of (entryClassName (ownerContext owner v f)).1
        (entryClassName (ownerContext owner v f)).2
      fields := [] }

/-- A class is the definition that a source gives. -/
structure Defines (g : Graph) (tag : String) (s : BuildState) (src : ClassSource) (c : ClassDef) :
    Prop where
  head : c = { classHead g src with fields := c.fields }
  fields : DefinesClass g tag s src c.fields

theorem Defines.name {g : Graph} {tag : String} {s : BuildState} {src : ClassSource} {c : ClassDef}
    (h : Defines g tag s src c) : c.name.real = src.className := by
  rw [h.head]
  cases src <;> rfl

theorem Defines.mode {g : Graph} {tag : String} {s : BuildState} {src : ClassSource} {c : ClassDef}
    (h : Defines g tag s src c) : c.mode = .complete := by
  rw [h.head]
  cases src <;> rfl

theorem Defines.constraints {g : Graph} {tag : String} {s : BuildState} {src : ClassSource}
    {c : ClassDef} (h : Defines g tag s src c) :
    c.constraints = (classHead g src).constraints := by
  rw [h.head]

/-- An enum definition stands for a named enum without fields. -/
def DefinesEnum (g : Graph) (p : ShapeId × String) (e : EnumDef) : Prop :=
  ∃ d own u vs, g.shape p.1 = .enum d own u vs ∧
    e = enumDef p.2 d vs (constraintsOf d.checks d.asserts)

/-- The fields of a variant have types and do not get in the way of the tag, and a class of its name
is registered. -/
structure HasVariant (g : Graph) (tag : String) (s : BuildState) (owner : String) (v : Variant) :
    Prop where
  registered : HasClass s (variantClassName owner v)
  free : TagFree tag v.fields
  fields : ∃ defs, DefinesFields g s owner (some v) v.fields defs

/-- Everything that the type of a struct or enum refers to is registered. -/
inductive Complete (g : Graph) (tag : String) (s : BuildState) : ShapeId → Ty Authored → Prop where
  | struct {id : ShapeId} {d : Declared} {fields : List Field} {n : String}
      {cs : List Constraint} {defs : List FieldDef} :
      g.shape id = .struct d fields → Entries.find? s.names id = some n → HasClass s n →
      DefinesFields g s n none fields defs →
      Complete g tag s id ((Ty.classRef n .complete false {}).withConstraints cs)
  | variants {id : ShapeId} {d : Declared} {own : Option String} {u : Bool} {vs : List Variant}
      {n : String} {cs : List Constraint} :
      g.shape id = .enum d own u vs → isDataEnum vs = true → Entries.find? s.names id = some n →
      (∀ v ∈ vs, HasVariant g (own.getD tag) s n v) →
      Complete g tag s id ((Ty.unionOf (vs.map fun v =>
        Ty.classRef (variantClassName n v) .complete false {}) {}).withConstraints cs)
  | texts {id : ShapeId} {d : Declared} {own : Option String} {vs : List Variant}
      {cs : List Constraint} :
      g.shape id = .enum d own true vs → isDataEnum vs = false →
      Complete g tag s id ((Ty.unionOf (vs.map fun v =>
        Ty.literal (.string v.rendered) {}) {}).withConstraints cs)
  | enumRef {id : ShapeId} {d : Declared} {own : Option String} {vs : List Variant} {n : String}
      {cs : List Constraint} :
      g.shape id = .enum d own false vs → isDataEnum vs = false →
      Entries.find? s.names id = some n → (∃ e ∈ s.registry.enums, e.name.real = n) →
      Complete g tag s id ((Ty.enumRef n false {}).withConstraints cs)

/-! ## Growth -/

section
variable {g : Graph} {tag : String} {s s' : BuildState} (grows : Grows s s')
include grows

theorem HasType.mono {id : ShapeId} {t : Ty Authored} (h : HasType g s id t) : HasType g s' id t := by
  induction h with
  | declared hd hv => exact .declared hd (find?_of_extends grows.visited hv)
  | scalar hs ht => exact .scalar hs ht
  | option hs _ ih => exact .option hs ih
  | list hs _ ih => exact .list hs ih
  | map hs hk _ ih => exact .map hs hk ih
  | pointer hs _ ih => exact .pointer hs ih

theorem HasClass.mono {name : String} (h : HasClass s name) : HasClass s' name := by
  obtain ⟨c, hc, hn⟩ := h
  exact ⟨c, grows.classes.subset hc, hn⟩

theorem KeyType.mono {repr : KeyRepr} {f : Field} {ctx : FieldContext} {id : ShapeId}
    {t : Ty Authored} (h : KeyType g s repr f ctx id t) : KeyType g s' repr f ctx id t := by
  induction h with
  | option hs _ ih => exact .option hs ih
  | list hs _ ih => exact .list hs ih
  | pointer hs _ ih => exact .pointer hs ih
  | text hs hm hr ht => exact .text hs hm hr (ht.mono grows)
  | pairs hs hm hr hk ht hc => exact .pairs hs hm hr (hk.mono grows) (ht.mono grows) (hc.mono grows)
  | other hs ht => exact .other hs (ht.mono grows)

theorem DefinesField.mono {owner : String} {v : Option Variant} {f : Field} {d : FieldDef}
    (h : DefinesField g s owner v f d) : DefinesField g s' owner v f d := by
  obtain ⟨t, ht, hd⟩ := h.bare
  refine ⟨t, ?_, hd⟩
  cases ht with
  | ints hr hi => exact .ints hr hi
  | keyed hi hr hk => exact .keyed hi hr (hk.mono grows)
  | plain hi hr hp => exact .plain hi hr (hp.mono grows)

theorem DefinesFields.mono {owner : String} {v : Option Variant} {fields : List Field}
    {defs : List FieldDef} (h : DefinesFields g s owner v fields defs) :
    DefinesFields g s' owner v fields defs := List.Forall₂.imp (fun _ _ hf => hf.mono grows) h

theorem DefinesClass.mono {src : ClassSource} {defs : List FieldDef}
    (h : DefinesClass g tag s src defs) : DefinesClass g tag s' src defs := by
  cases h with
  | struct hs hf => exact .struct hs (hf.mono grows)
  | variant hs ht hf => exact .variant hs ht (hf.mono grows)
  | entry hm hk hx => exact .entry hm (hk.mono grows) (hx.mono grows)

theorem Defines.mono {src : ClassSource} {c : ClassDef} (h : Defines g tag s src c) :
    Defines g tag s' src c := ⟨h.head, h.fields.mono grows⟩

theorem HasVariant.mono {owner : String} {v : Variant} (h : HasVariant g tag s owner v) :
    HasVariant g tag s' owner v :=
  ⟨h.registered.mono grows, h.free, h.fields.imp fun _ hd => hd.mono grows⟩

theorem Complete.mono {id : ShapeId} {t : Ty Authored} (h : Complete g tag s id t) :
    Complete g tag s' id t := by
  cases h with
  | struct hs hn hc hf =>
    exact .struct hs (find?_of_extends grows.names hn) (hc.mono grows) (hf.mono grows)
  | variants hs hd hn hv =>
    exact .variants hs hd (find?_of_extends grows.names hn) fun v hm => (hv v hm).mono grows
  | texts hs hd => exact .texts hs hd
  | enumRef hs hd hn he =>
    obtain ⟨e, he, hname⟩ := he
    exact .enumRef hs hd (find?_of_extends grows.names hn) ⟨e, grows.enums.subset he, hname⟩

end

end Builder

end ShapeSchema
