import ShapeSchema.Convert.Converter
import ShapeSchema.Native.Parts
import ShapeSchema.Native.Spoken

/-!
# Writing native values

`Writer.write` turns a native value into the dynamic value of its shape. It asks of the value only
what it needs; a value that does not match its shape is a violation. Options and pointers are passed
over first, so every further step goes to a part of the value.
-/

-- the equations that a match names are used by the termination proofs alone
set_option linter.unusedVariables false

namespace ShapeSchema.Converter

/-- The text of a value inside a message. -/
def spoken (v : Native) : Except Fault String :=
  match v.spoken? with
  | some t => .ok t
  | none => .error .unspeakable

/-- The variant whose real name a value is. -/
def namedVariant? (variants : List Variant) (v : Native) : Option Variant :=
  match v with
  | .text s => variants.find? fun x => x.name == s
  | _ => none

def writeInt (s : Scalar) (n : Int) (path : Path) : Except Fault Value :=
  if s.admits n && fitsInt64 n then .ok (.int n) else violate (.outOfRange s n) path

def writeScalar (s : Scalar) (v : Native) (path : Path) : Except Fault Value :=
  match s, v with
  | .bool, .bool b => .ok (.bool b)
  | .char, .text t => .ok (.text t)
  | .string, .text t => .ok (.text t)
  | .f32, .number d => .ok (.float d)
  | .f64, .number d => .ok (.float d)
  | .unit, _ => .ok .null
  | s, v =>
    if s.isInteger then
      match v.toInt? with
      | some n => writeInt s n path
      | none => violate (.notScalar s v.kindName) path
    else violate (.notScalar s v.kindName) path

/-- A whole number in the way its field chose. -/
def writeIntAs (repr : IntRepr) (ident : String) (v : Native) (path : Path) : Except Fault Value :=
  match v.toInt?, repr with
  | none, _ => violate (.notInteger ident) path
  | some n, .text => .ok (.text (toString n))
  | some n, .int64 => if fitsInt64 n then .ok (.int n) else violate (.beyondInt64 n) path

/-- The whole numbers below a field in the way it chose. -/
def writeInts (c : Converter) (repr : IntRepr) (id : ShapeId) (v : Native) (path : Path) :
    Except Fault Value :=
  match c.graph.land v.isNothing id with
  | .null => .ok .null
  | .endless => .error .endless
  | .shape _ (.list _ inner) =>
    match h : v.items? with
    | none => violate .notItems path
    | some items =>
      .list <$> items.attach.zipIdx.mapM fun p => writeInts c repr inner p.1.val (path.index p.2)
  | .shape _ s => writeIntAs repr s.ident v path
termination_by v.weight
decreasing_by exact Native.weight_item h p.1.property

/-- The text of a map key. -/
def keyText (key : Native) (path : Path) : Except Fault String :=
  match key with
  | .text s => .ok s
  | .number d => .ok d.text
  | .big n => .ok (toString n)
  | .bool b => .ok (if b then "true" else "false")
  | key => violate (.keyWithoutText key.kindName) path

mutual

/-- The dynamic value of a native value of a shape. -/
def write (c : Converter) (id : ShapeId) (v : Native) (path : Path) : Except Fault Value :=
  match c.graph.land v.isNothing id with
  | .null => .ok .null
  | .endless => .error .endless
  | .shape _ (.scalar s) => writeScalar s v path
  | .shape _ (.list _ inner) =>
    match h : v.items? with
    | none => violate .notItems path
    | some items =>
      .list <$> items.attach.zipIdx.mapM fun p => write c inner p.1.val (path.index p.2)
  | .shape _ (.map _ _ value) =>
    match h : v.entries? with
    | none => violate .notEntries path
    | some es =>
      .ofEntries <$> es.attach.mapM fun p =>
        match p.val.1 with
        | .text key => return (key, ← write c value p.val.2 (path.key key))
        | _ => violate .keyNotText path
  | .shape sid (.struct d fields) =>
    match h : v.members? with
    | none => violate (.notObject d.ident) path
    | some ms => do
      let owner := c.names.internalName sid d
      return .ofFields owner (← writeFields c owner none fields v ms h path)
  | .shape sid (.enum d tag asUnion variants) =>
    let owner := c.names.internalName sid d
    if isDataEnum variants then
      match h : v.members? with
      | none => violate (.notObject d.ident) path
      | some ms => do
        let tagField := tag.getD c.names.tagField
        match namedVariant? variants (Native.answer ms tagField) with
        | none => violate (.notVariant (← spoken (Native.answer ms tagField)) d.ident) path
        | some x =>
          let fs ← writeFields c owner (some x) x.fields v ms h path
          return .ofFields (variantClassName owner x) ((tagField, .text x.rendered) :: fs)
    else
      match namedVariant? variants v with
      | none => do violate (.notVariant (← spoken v) d.ident) path
      | some x => return if asUnion then .text x.rendered else .enumOf owner x.name
  | .shape _ s => violate (.noDynamicForm s.ident) path
termination_by (v.weight, 1)
decreasing_by
  · exact Prod.Lex.left _ _ (Native.weight_item h p.1.property)
  · exact Prod.Lex.left _ _ (Native.weight_entry h p.property).2
  · exact Prod.Lex.right _ (by omega)
  · exact Prod.Lex.right _ (by omega)

/-- The fields of a struct or variant that are not skipped, from the members of an object. -/
def writeFields (c : Converter) (owner : String) (variant : Option Variant) (fields : List Field)
    (v : Native) (ms : List (String × Native)) (h : v.members? = some ms) (path : Path) :
    Except Fault (List (String × Value)) :=
  (fields.filter fun f => !f.skip).mapM fun f =>
    return (f.name, ← writeField c f (ownerContext owner variant f) (Native.answer ms f.name)
      (path.field f.name))
termination_by (v.weight, 0)
decreasing_by exact Prod.Lex.left _ _ (Native.weight_answer h f.name)

/-- A field's value: as its codec writes it, else with another way to write whole numbers or maps,
else by its shape. -/
def writeField (c : Converter) (f : Field) (ctx : FieldContext) (v : Native) (path : Path) :
    Except Fault Value :=
  match f.codec, f.intRepr, f.keyRepr with
  | some codec, _, _ => codec.write v
  | none, some repr, _ => writeInts c repr f.shape v path
  | none, none, some repr => writeKeyed c repr ctx f.shape v path
  | none, none, none => write c f.shape v path
termination_by (v.weight, 3)

/-- The maps below a field in the way it chose. -/
def writeKeyed (c : Converter) (repr : KeyRepr) (ctx : FieldContext) (id : ShapeId) (v : Native)
    (path : Path) : Except Fault Value :=
  match c.graph.land v.isNothing id with
  | .null => .ok .null
  | .endless => .error .endless
  | .shape _ (.list _ inner) =>
    match h : v.items? with
    | none => violate .notItems path
    | some items =>
      .list <$> items.attach.zipIdx.mapM fun p =>
        writeKeyed c repr ctx inner p.1.val (path.index p.2)
  | .shape _ (.map _ key value) =>
    match h : v.entries? with
    | none => violate .notEntries path
    | some es =>
      match repr with
      | .text =>
        .ofEntries <$> es.attach.mapM fun p => do
          let k ← keyText p.val.1 path
          return (k, ← write c value p.val.2 (path.key k))
      | .pairs =>
        .list <$> es.attach.zipIdx.mapM fun p => do
          let k ← write c key p.1.val.1 ((path.index p.2).field "key")
          let x ← write c value p.1.val.2 ((path.index p.2).field "value")
          return .classOf (entryClassName ctx).1 [("key", k), ("value", x)]
  | .shape sid _ => write c sid v path
termination_by (v.weight, 2)
decreasing_by
  · exact Prod.Lex.left _ _ (Native.weight_item h p.1.property)
  · exact Prod.Lex.left _ _ (Native.weight_entry h p.property).2
  · exact Prod.Lex.left _ _ (Native.weight_entry h p.1.property).1
  · exact Prod.Lex.left _ _ (Native.weight_entry h p.1.property).2
  · exact Prod.Lex.right _ (by omega)

end

end ShapeSchema.Converter
