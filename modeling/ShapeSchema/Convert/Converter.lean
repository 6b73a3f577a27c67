import ShapeSchema.Shape.Builder
import ShapeSchema.Shape.Zero

/-!
# Converters

What both directions of conversion need: the graph of shapes, and the names that structs and enums
carry in dynamic values.
-/

namespace ShapeSchema

/-- The names of structs and enums in a built schema, and the usual tag field. -/
structure NameTable where
  names : List (ShapeId × String)
  tagField : String

/-- The name of a struct or enum: the one it received, else the one it asks for. -/
def NameTable.internalName (t : NameTable) (id : ShapeId) (d : Declared) : String :=
  (Entries.find? t.names id).getD d.baseName

/-- The names of a built schema. -/
def Bundle.nameTable (b : Bundle) : NameTable := ⟨b.names, b.tagField⟩

/-- The shapes of values and the names of their structs and enums. -/
structure Converter where
  graph : Graph
  names : NameTable

/-- The naming context of a field of a struct or variant. -/
def ownerContext (owner : String) (variant : Option Variant) (f : Field) : FieldContext :=
  ⟨owner, f.name, f.rendered, variant.map (·.name), variant.map (·.rendered)⟩

/-- A promise of the caller is broken at a path. -/
def violate {α : Type} (breach : Breach) (path : Path) : Except Fault α :=
  .error (.violation ⟨breach, path⟩)

/-- A value does not fit at a path. -/
def misfit {α : Type} (path : Path) (expected got : String) (mismatch : Mismatch) :
    Except Fault α :=
  .error (.convert ⟨path, expected, got, mismatch⟩)

end ShapeSchema
