import ShapeSchema.Shape.Graph

/-!
# Descriptions and zero values of shapes

How messages name a shape, and the value that stands in for a missing one. Both follow the shape
alone; a shape that contains itself without a struct or enum between has no description, and one
that cannot come to an end has no zero value.
-/

namespace ShapeSchema

namespace Graph

/-- A shape's description, followed to a depth of at most `fuel`. -/
def describeWithin (g : Graph) : Nat → ShapeId → String
  | 0, _ => ""
  | fuel + 1, id =>
    match g.shape id with
    | .scalar s => s.text
    | .option inner => describeWithin g fuel inner ++ "?"
    | .list (.fixed n) inner => describeWithin g fuel inner ++ "[" ++ toString n ++ "]"
    | .list _ inner => describeWithin g fuel inner ++ "[]"
    | .map _ key value =>
      "map<" ++ describeWithin g fuel key ++ ", " ++ describeWithin g fuel value ++ ">"
    | .pointer _ inner => describeWithin g fuel inner
    | shape => shape.ident

/-- How messages name a shape; no path without repetition is longer than the table. -/
def describe (g : Graph) (id : ShapeId) : String := g.describeWithin (g.size + 1) id

/-- Zero of a scalar. -/
def scalarZero (s : Scalar) : Native :=
  match s with
  | .bool => .bool false
  | .char | .string => .text ""
  | .f32 | .f64 => .number .zero
  | .unit => .null
  | s => if s.isNarrow then .number .zero else .big 0

mutual

/-- A shape's zero value, followed to a depth of at most `fuel`. -/
def zeroWithin (g : Graph) (fuel : Nat) (id : ShapeId) (path : Path) : Except Fault Native :=
  match fuel with
  | 0 => .error .endless
  | fuel + 1 =>
    match g.shape id with
    | .scalar s => .ok (scalarZero s)
    | .option _ => .ok .null
    | .list .array _ => .ok (.array [])
    | .list .set _ => .ok (.set [])
    | .list (.fixed n) inner =>
      .array <$> (List.range n.toNat).mapM fun i => zeroWithin g fuel inner (path.index i)
    | .map .object _ _ => .ok (.object [])
    | .map .map _ _ => .ok (.map [])
    | .pointer _ inner => zeroWithin g fuel inner path
    | .struct _ fields =>
      .record <$> fields.mapM fun f =>
        return (f.name, ← fieldDefaultWithin g fuel f (path.field f.name))
    | .enum d _ _ variants =>
      match variants with
      | [] => .error (.violation ⟨.noFirstVariant d.ident, path⟩)
      | v :: _ =>
        if v.fields.isEmpty then .ok (.text v.name)
        else .error (.violation ⟨.noFirstVariant d.ident, path⟩)
    | .foreign _ ident => .error (.violation ⟨.noDefault ident, path⟩)

/-- A field's declared default, or the zero value of its shape. -/
def fieldDefaultWithin (g : Graph) (fuel : Nat) (f : Field) (path : Path) : Except Fault Native :=
  match fuel with
  | 0 => .error .endless
  | fuel + 1 =>
    match f.default with
    | some (.value v) => .ok v
    | _ => zeroWithin g fuel f.shape path

end

/-- A shape's zero value; no path without repetition is longer than the table. -/
def zero (g : Graph) (id : ShapeId) (path : Path) : Except Fault Native :=
  g.zeroWithin (2 * g.size + 2) id path

/-- What a missing field is filled with. -/
def fieldDefault (g : Graph) (f : Field) (path : Path) : Except Fault Native :=
  g.fieldDefaultWithin (2 * g.size + 3) f path

/-! ## Options and pointers -/

/-- Where a chain of options and pointers leads to for a given value. -/
inductive Landing where
  /-- An option of a value that is null. -/
  | null
  /-- A shape that is neither option nor pointer. -/
  | shape (id : ShapeId) (s : Shape)
  | endless

/-- Follows options and pointers; a null ends at the first option. -/
def landWithin (g : Graph) (isNull : Bool) : Nat → ShapeId → Landing
  | 0, _ => .endless
  | fuel + 1, id =>
    match g.shape id with
    | .option inner => if isNull then .null else landWithin g isNull fuel inner
    | .pointer _ inner => landWithin g isNull fuel inner
    | s => .shape id s

/-- Where options and pointers lead to. -/
def land (g : Graph) (isNull : Bool) (id : ShapeId) : Landing := g.landWithin isNull (g.size + 1) id

end Graph

end ShapeSchema
