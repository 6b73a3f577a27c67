import ShapeSchema.Shape.Builder

/-!
# A cache of built schemas

Each shape's schema is built once and handed out again afterwards. A build that fails is not kept.
-/

namespace ShapeSchema

structure SchemaCache where
  tagField : String := standardTagField
  bundles : List (ShapeId × Bundle) := []

namespace SchemaCache

def find? (c : SchemaCache) (id : ShapeId) : Option Bundle := Entries.find? c.bundles id

def size (c : SchemaCache) : Nat := c.bundles.length

def clear (c : SchemaCache) : SchemaCache := { c with bundles := [] }

/-- The schema of a shape, what its building reported, and the cache afterwards. -/
def get (c : SchemaCache) (g : Graph) (id : ShapeId) :
    Except Fault Bundle × List Event × SchemaCache :=
  match c.find? id with
  | some b => (.ok b, [], c)
  | none =>
    let (result, s) := buildSchema g id c.tagField
    match result with
    | .ok b => (.ok b, s.events, { c with bundles := c.bundles ++ [(id, b)] })
    | .error e => (.error e, s.events, c)

end SchemaCache

end ShapeSchema
