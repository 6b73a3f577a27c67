import ShapeSchema.Proofs.Convert.Variants
import ShapeSchema.Proofs.Shape.Inhabits

/-!
# Values that use the names of a schema

A schema knows two names of a field, the real one and the shown one, and of the tags and literals of
variants the shown ones only. A value is `WellNamed` at a shape if it gives no other names wherever
the reader follows the shape; the reader knows more of them. Its maps hold each key once. Values
that do not have the form of the shape are well named too, as far as they are read.
-/

namespace ShapeSchema

mutual

/-- A value uses the names that the schema of a shape knows; `repr` is the way in which the maps of
the shape are written. -/
inductive WellNamed (g : Graph) (tag : String) : Option KeyRepr → ShapeId → Value → Prop where
  | landing {repr : Option KeyRepr} {id : ShapeId} {v : Value} :
      (∀ sid x, g.land v.isNull id = .shape sid x → WellNamedAt g tag repr x v) →
      WellNamed g tag repr id v

/-- The same for a value at the shape that options and pointers lead to. -/
inductive WellNamedAt (g : Graph) (tag : String) : Option KeyRepr → Shape → Value → Prop where
  | scalar {repr : Option KeyRepr} {s : Scalar} {v : Value} : WellNamedAt g tag repr (.scalar s) v
  | list {repr : Option KeyRepr} {kind : Collection} {inner : ShapeId} {v : Value} :
      (∀ items, v.items? = some items → ∀ x ∈ items, WellNamed g tag repr inner x) →
      WellNamedAt g tag repr (.list kind inner) v
  | map {repr : Option KeyRepr} {kind : Keyed} {key value : ShapeId} {v : Value} :
      repr ≠ some .pairs → (∀ es, v.entries? = some es → (Entries.keys es).Nodup) →
      (∀ es, v.entries? = some es → ∀ p ∈ es, WellNamed g tag none value p.2) →
      WellNamedAt g tag repr (.map kind key value) v
  | pairs {kind : Keyed} {key value : ShapeId} {v : Value} :
      (∀ items, v.items? = some items → ∀ x ∈ items, ∀ es, x.entries? = some es →
        ∀ k, Entries.find? es "key" = some k → WellNamed g tag none key k) →
      (∀ items, v.items? = some items → ∀ x ∈ items, ∀ es, x.entries? = some es →
        ∀ y, Entries.find? es "value" = some y → WellNamed g tag none value y) →
      WellNamedAt g tag (some .pairs) (.map kind key value) v
  | struct {repr : Option KeyRepr} {d : Declared} {fields : List Field} {v : Value} :
      (∀ es, v.entries? = some es → WellNamedFields g tag fields es) →
      WellNamedAt g tag repr (.struct d fields) v
  | data {repr : Option KeyRepr} {d : Declared} {own : Option String} {u : Bool}
      {vs : List Variant} {v : Value} : isDataEnum vs = true →
      (∀ es t name, v.entries? = some es → Entries.find? es (own.getD tag) = some t →
        t.variantName? = some name → ∃ x ∈ vs, x.rendered = name) →
      (∀ es t name, v.entries? = some es → Entries.find? es (own.getD tag) = some t →
        t.variantName? = some name → ∀ x, Variant.match? vs name = some x →
        WellNamedFields g tag x.fields es) →
      WellNamedAt g tag repr (.enum d own u vs) v
  | texts {repr : Option KeyRepr} {d : Declared} {own : Option String} {vs : List Variant}
      {v : Value} : isDataEnum vs = false →
      (∀ name, v.variantName? = some name → ∃ x ∈ vs, x.rendered = name) →
      WellNamedAt g tag repr (.enum d own true vs) v
  | units {repr : Option KeyRepr} {d : Declared} {own : Option String} {vs : List Variant}
      {v : Value} : isDataEnum vs = false →
      (∀ name, v.variantName? = some name → Variant.Tells vs name) →
      WellNamedAt g tag repr (.enum d own false vs) v

/-- The entries of a value give no field by its other name alone, and their values use names that
the schema knows. -/
inductive WellNamedFields (g : Graph) (tag : String) :
    List Field → List (String × Value) → Prop where
  | fields {fields : List Field} {es : List (String × Value)} :
      (∀ f ∈ fields, f.skip = false →
        (Name.of f.name f.rendered).lookup? es = f.lookup? es) →
      (∀ f ∈ fields, f.skip = false → f.intRepr = none → ∀ x, f.lookup? es = some x →
        WellNamed g tag f.keyRepr f.shape x) →
      WellNamedFields g tag fields es

end

theorem WellNamed.at {g : Graph} {tag : String} {repr : Option KeyRepr} {id sid : ShapeId}
    {v : Value} {x : Shape} (h : WellNamed g tag repr id v)
    (hl : g.land v.isNull id = .shape sid x) : WellNamedAt g tag repr x v := by
  cases h with
  | landing h => exact h sid x hl

theorem WellNamedAt.plain {g : Graph} {tag : String} {repr : Option KeyRepr} {x : Shape} {v : Value}
    (h : WellNamedAt g tag repr x v) (hx : x.isDeclared = true ∨ ∃ s, x = .scalar s) :
    WellNamedAt g tag none x v := by
  cases h with
  | scalar => exact .scalar
  | struct h => exact .struct h
  | data hd ht h => exact .data hd ht h
  | texts hd h => exact .texts hd h
  | units hd h => exact .units hd h
  | list | map | pairs => simp [Shape.isDeclared] at hx

end ShapeSchema
