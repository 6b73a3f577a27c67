import ShapeSchema.Convert.Converter
import ShapeSchema.Value.Parts
import ShapeSchema.Decimal.Reading

/-!
# Reading dynamic values

`Converter.read` turns a dynamic value into the native value of its shape, or says where and how the
two disagree. Fields and variants are found under any of their names. Options and pointers are
passed over first, so every further step goes to a part of the value.
-/

-- the equations that a match names are used by the termination proofs alone
set_option linter.unusedVariables false

namespace ShapeSchema

theorem Field.mem_of_lookup? {α : Type} {f : Field} {es : List (String × α)} {x : α}
    (h : f.lookup? es = some x) : ∃ k, (k, x) ∈ es := by
  unfold Field.lookup? at h
  rcases Option.or_eq_some_iff.1 h with h | ⟨_, h⟩
  · exact Entries.mem_of_find? h
  rcases Option.or_eq_some_iff.1 h with h | ⟨_, h⟩
  · exact Entries.mem_of_find? h
  · obtain ⟨_, _, h⟩ := Option.bind_eq_some_iff.1 h
    exact Entries.mem_of_find? h

namespace Converter

/-- A value does not have the kind that a shape needs. -/
def wrongKind {α : Type} (c : Converter) (id : ShapeId) (v : Value) (path : Path) :
    Except Fault α :=
  misfit path (c.graph.describe id) v.describe .wrongKind

/-- A whole number of a scalar. -/
def readInt (s : Scalar) (n : Int) (path : Path) : Except Fault Native :=
  if s.admits n then .ok (if s.isNarrow then .ofInt n else .big n)
  else misfit path s.text (toString n) .integerRange

def readScalar (s : Scalar) (v : Value) (path : Path) : Except Fault Native :=
  match s, v with
  | .bool, .bool b => .ok (.bool b)
  | .string, .text t => .ok (.text t)
  | .char, .text t =>
    if t.toList.length = 1 then .ok (.text t) else misfit path s.text v.describe .notOneCharacter
  | .f32, .float d => .ok (.number d)
  | .f64, .float d => .ok (.number d)
  | .f32, .int n => .ok (.ofInt n)
  | .f64, .int n => .ok (.ofInt n)
  | .unit, .null => .ok .null
  | s, .int n => if s.isInteger then readInt s n path else misfit path s.text v.describe .wrongKind
  | s, v => misfit path s.text v.describe .wrongKind

/-- A whole number in the way its field chose. -/
def readIntAs (repr : IntRepr) (s : Scalar) (v : Value) (path : Path) : Except Fault Native :=
  match repr, v with
  | .int64, .int n => readInt s n path
  | .int64, v => misfit path s.text v.describe .wrongKind
  | .text, .text t =>
    match Decimal.readInt? t with
    | some n => readInt s n path
    | none => misfit path s.text v.describe .integerText
  | .text, v => misfit path (s.text ++ " as string") v.describe .wrongKind

/-- The items of a list of the right length. -/
def listItems (c : Converter) (kind : Collection) (inner : ShapeId) (v : Value) (path : Path) :
    Except Fault { items : List Value // v.items? = some items } :=
  match h : v.items? with
  | none => misfit path (c.graph.describe inner ++ "[]") v.describe .wrongKind
  | some items =>
    match kind with
    | .fixed n =>
      if items.length = n then .ok ⟨items, rfl⟩
      else
        misfit path (c.graph.describe inner ++ "[" ++ toString n ++ "]")
          ("list of " ++ toString items.length) .listLength
    | _ => .ok ⟨items, rfl⟩

/-- Items as an array or set. -/
def collect (kind : Collection) (items : List Native) : Native :=
  match kind with
  | .set => .ofItems items
  | _ => .array items

/-- Converted entries as a map, or as a plain object that has the entries of the map under the texts
of their keys. -/
def collectEntries (kind : Keyed) (es : List (Native × Native)) : Native :=
  match kind with
  | .map => .ofEntries es
  | .object => .record ((Native.setEntries es).map fun p => (p.1.spoken?.getD "", p.2))

/-- The whole numbers below a field in the way it chose. -/
def readInts (c : Converter) (repr : IntRepr) (id : ShapeId) (v : Value) (path : Path) :
    Except Fault Native :=
  match c.graph.land v.isNull id with
  | .null => .ok .null
  | .endless => .error .endless
  | .shape _ (.list kind inner) => do
    let ⟨items, h⟩ ← listItems c kind inner v path
    collect kind <$> items.attach.zipIdx.mapM fun p =>
      readInts c repr inner p.1.val (path.index p.2)
  | .shape _ (.scalar s) => readIntAs repr s v path
  | .shape _ s => violate (.notIntegerShape s.ident) path
termination_by sizeOf v
decreasing_by exact Value.sizeOf_item h p.1.property

/-- The key that a text stands for. -/
def readKey (c : Converter) (id : ShapeId) (key : String) (path : Path) : Except Fault Native :=
  let refuse := misfit path (c.graph.describe id) ("string " ++ Text.quoted key) .mapKey
  match c.graph.unwrap id with
  | .enum _ _ _ variants =>
    if isDataEnum variants then refuse
    else
      match variants.find? fun v => v.name == key || v.rendered == key || v.altName == some key with
      | some v => .ok (.text v.name)
      | none => refuse
  | .scalar .string => .ok (.text key)
  | .scalar .char => if key.toList.length = 1 then .ok (.text key) else refuse
  | .scalar .bool =>
    if key = "true" then .ok (.bool true) else if key = "false" then .ok (.bool false) else refuse
  | .scalar .unit => refuse
  | .scalar s =>
    if s.isInteger then
      match Decimal.readInt? key with
      | some n => readInt s n path
      | none => refuse
    else if Text.allBlank key || (Double.ofText key).isNaN then refuse
    else .ok (.number (.ofText key))
  | _ => refuse

mutual

/-- The native value of a dynamic value of a shape. -/
def read (c : Converter) (id : ShapeId) (v : Value) (path : Path) : Except Fault Native :=
  match v with
  | .media m => misfit path (c.graph.describe id) (Value.media m).describe .mediaValue
  | v =>
    match c.graph.land v.isNull id with
    | .null => .ok .null
    | .endless => .error .endless
    | .shape _ (.scalar s) => readScalar s v path
    | .shape _ (.list kind inner) => do
      let ⟨items, h⟩ ← listItems c kind inner v path
      collect kind <$> items.attach.zipIdx.mapM fun p => read c inner p.1.val (path.index p.2)
    | .shape sid (.map kind _ value) =>
      match h : v.entries? with
      | none => wrongKind c sid v path
      | some es =>
        collectEntries kind <$> es.attach.mapM fun p =>
          return (.text p.val.1, ← read c value p.val.2 (path.key p.val.1))
    | .shape sid (.struct d fields) =>
      match h : v.entries? with
      | none => wrongKind c sid v path
      | some es => .record <$> readFields c (c.names.internalName sid d) none fields v es h path
    | .shape sid (.enum d tag asUnion variants) =>
      if isDataEnum variants then
        match h : v.entries? with
        | none => wrongKind c sid v path
        | some es =>
          let tagField := tag.getD c.names.tagField
          match Entries.find? es tagField with
          | none => .error (.convert (.missing (path.field tagField) d.ident))
          | some tagValue =>
            match tagValue.variantName?.bind (Variant.match? variants) with
            | none => misfit (path.field tagField) d.ident tagValue.describe .unknownTag
            | some x => do
              let fs ← readFields c (c.names.internalName sid d) (some x) x.fields v es h path
              return .record ((tagField, .text x.name) :: fs)
      else
        match v.variantName? with
        | none => wrongKind c sid v path
        | some name =>
          match Variant.match? variants name with
          | none => misfit path d.ident v.describe .unknownVariant
          | some x => .ok (.text x.name)
    | .shape _ s => violate (.noDynamicForm s.ident) path
termination_by (sizeOf v, 1)
decreasing_by
  · exact Prod.Lex.left _ _ (Value.sizeOf_item h p.1.property)
  · exact Prod.Lex.left _ _ (Value.sizeOf_entry h p.property)
  · exact Prod.Lex.right _ (by omega)
  · exact Prod.Lex.right _ (by omega)

/-- The fields of a struct or variant from the entries of a value; a field that is skipped, or has a
default and is missing or null, is filled in. -/
def readFields (c : Converter) (owner : String) (variant : Option Variant) (fields : List Field)
    (v : Value) (es : List (String × Value)) (h : v.entries? = some es) (path : Path) :
    Except Fault (List (String × Native)) :=
  fields.mapM fun f =>
    let here := path.field f.name
    if f.skip then return (f.name, ← c.graph.fieldDefault f here)
    else match hf : f.lookup? es with
      | none =>
        if f.default.isSome then return (f.name, ← c.graph.fieldDefault f here)
        else if f.codec.isNone && c.graph.isOption f.shape then return (f.name, .null)
        else .error (.convert (.missing here (c.graph.describe f.shape)))
      | some found =>
        if found.isNull && f.default.isSome then return (f.name, ← c.graph.fieldDefault f here)
        else return (f.name, ← readField c f (ownerContext owner variant f) found here)
termination_by (sizeOf v, 0)
decreasing_by
  obtain ⟨k, hk⟩ := Field.mem_of_lookup? hf
  exact Prod.Lex.left _ _ (Value.sizeOf_entry h hk)

/-- A field's value: as its codec reads it, else with another way to write whole numbers or maps,
else by its shape. -/
def readField (c : Converter) (f : Field) (ctx : FieldContext) (v : Value) (path : Path) :
    Except Fault Native :=
  match f.codec with
  | some codec => codec.read v path
  | none =>
    if v.isNull && !c.graph.isOption f.shape then
      .error (.convert (.nullForRequired path (c.graph.describe f.shape)))
    else match f.intRepr, f.keyRepr with
      | some repr, _ => readInts c repr f.shape v path
      | none, some repr => readKeyed c repr ctx f.shape v path
      | none, none => read c f.shape v path
termination_by (sizeOf v, 3)

/-- The maps below a field in the way it chose. -/
def readKeyed (c : Converter) (repr : KeyRepr) (ctx : FieldContext) (id : ShapeId) (v : Value)
    (path : Path) : Except Fault Native :=
  match c.graph.land v.isNull id with
  | .null => .ok .null
  | .endless => .error .endless
  | .shape _ (.list kind inner) => do
    let ⟨items, h⟩ ← listItems c kind inner v path
    collect kind <$> items.attach.zipIdx.mapM fun p =>
      readKeyed c repr ctx inner p.1.val (path.index p.2)
  | .shape sid (.map kind key value) =>
    match repr with
    | .text =>
      match h : v.entries? with
      | none => wrongKind c sid v path
      | some es =>
        collectEntries kind <$> es.attach.mapM fun p => do
          let here := path.key p.val.1
          let k ← readKey c key p.val.1 here
          return (k, ← read c value p.val.2 here)
    | .pairs =>
      match h : v.items? with
      | none => misfit path ((entryClassName ctx).2 ++ "[]") v.describe .wrongKind
      | some items =>
        collectEntries kind <$> items.attach.zipIdx.mapM fun p => do
          let here := path.index p.2
          match he : p.1.val.entries? with
          | none => wrongKind c sid p.1.val here
          | some es =>
            match hk : Entries.find? es "key", hx : Entries.find? es "value" with
            | none, _ => .error (.convert (.missing (here.field "key") (c.graph.describe key)))
            | some _, none =>
              .error (.convert (.missing (here.field "value") (c.graph.describe value)))
            | some k, some x =>
              return (← read c key k (here.field "key"), ← read c value x (here.field "value"))
  | .shape sid _ => read c sid v path
termination_by (sizeOf v, 2)
decreasing_by
  · exact Prod.Lex.left _ _ (Value.sizeOf_item h p.1.property)
  · exact Prod.Lex.left _ _ (Value.sizeOf_entry h p.property)
  · obtain ⟨_, hk⟩ := Entries.mem_of_find? hk
    exact Prod.Lex.left _ _
      (Nat.lt_trans (Value.sizeOf_entry he hk) (Value.sizeOf_item h p.1.property))
  · obtain ⟨_, hx⟩ := Entries.mem_of_find? hx
    exact Prod.Lex.left _ _
      (Nat.lt_trans (Value.sizeOf_entry he hx) (Value.sizeOf_item h p.1.property))
  · exact Prod.Lex.right _ (by omega)

end

end Converter

end ShapeSchema
