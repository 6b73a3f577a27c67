import ShapeSchema.Shape.Naming
import ShapeSchema.Log.Event

/-!
# Building schemas

The builder walks a shape graph and turns each shape into a type; structs and enums are registered
under a name of their own when they are first met, before their fields are walked, so that recursive
shapes come to an end. One builder keeps its state over several walks, also over one that fails.

`Builder.step` is one shape in terms of the shapes below it; `Builder.build` closes it with as much
depth as a graph whose cycles all pass through structs or enums can need.
-/

namespace ShapeSchema

/-- What a builder has seen and made so far. -/
structure BuildState where
  registry : Registry := {}
  /-- Types of the structs and enums met so far. -/
  visited : List (ShapeId × Ty Authored) := []
  /-- Names given to structs and enums, in order. -/
  names : List (ShapeId × String) := []
  /-- The last number that was tried as a suffix. -/
  counter : Nat := 0
  /-- Identifiers from the root to the place that is being built. -/
  trail : List String := []
  events : List Event := []
  /-- Fields whose codec was asked to register its definitions. -/
  codecCalls : List FieldContext := []

/-- A step that changes the builder's state and may fail; a failure keeps the state. -/
abbrev Build (α : Type) := ExceptT Fault (StateM BuildState) α

namespace Builder

def log (level : LogLevel) (message : String) (data : Option Native) : Build Unit :=
  modify fun s => { s with events := s.events ++ [⟨level, message, data⟩] }

/-- Fails at a shape. -/
def fail {α : Type} (shape : Shape) (problem : BuildProblem) : Build α := do
  let s ← get
  throw (.build ⟨problem, shape.number?, shape.ident, ".".intercalate s.trail⟩)

def pushTrail (name : String) : Build Unit := modify fun s => { s with trail := s.trail ++ [name] }

def popTrail : Build Unit := modify fun s => { s with trail := s.trail.dropLast }

def visit (id : ShapeId) (t : Ty Authored) : Build Unit :=
  modify fun s => { s with visited := s.visited ++ [(id, t)] }

/-! ## Names -/

/-- A base name with a number. -/
def numbered (base : String) (n : Nat) : String := base ++ "__" ++ toString n

/-- How far beyond the counter the first free number lies: one of as many as names are in use, and
one more. -/
def freeOffset (used : List String) (base : String) (counter : Nat) : Nat :=
  ((List.range (used.length + 1)).find? fun i =>
    !used.contains (numbered base (counter + 1 + i))).getD 0

/-- The name under which a struct or enum is registered: the one it has, its base name, or that with
the next free number. -/
def internalName (id : ShapeId) (base : String) : Build String := do
  let s ← get
  match Entries.find? s.names id with
  | some name => return name
  | none =>
    let used := s.names.map (·.2)
    if used.contains base then
      let n := s.counter + 1 + freeOffset used base s.counter
      set { s with counter := n, names := s.names ++ [(id, numbered base n)] }
      log .debug ("internal name " ++ base ++ " taken; using " ++ numbered base n)
        (some (.object [("shape", .text "?")]))
      return numbered base n
    else
      set { s with names := s.names ++ [(id, base)] }
      return base

/-! ## Definitions -/

def registerClass (c : ClassDef) : Build Unit := do
  let s ← get
  unless s.registry.hasClass c.name.real .complete do
    log .debug ("registered class " ++ c.name.real)
      (some (.object [("fields", .ofInt c.fields.length)]))
  modify fun s => { s with registry := s.registry.addClass c }

def registerEnum (e : EnumDef) : Build Unit := do
  modify fun s => { s with registry := s.registry.addEnum e }
  log .debug ("registered enum " ++ e.name.real) none

/-- The constraints of a declaration, if they are valid. -/
def validConstraints (shape : Shape) (checks asserts : List Rule) : Build (List Constraint) := do
  let cs := constraintsOf checks asserts
  match constraintProblem? [] cs with
  | some problem => fail shape (.constraint problem)
  | none => return cs

/-! ## Types -/

/-- The type of a scalar. -/
def scalarType (s : Scalar) : Build (Ty Authored) :=
  match s with
  | .bool => return .prim .bool {}
  | .char | .string => return .prim .string {}
  | .f32 | .f64 => return .prim .float {}
  | .unit => return .prim .null {}
  | s => if s.isWide then fail (.scalar s) (.wideInteger s) else return .prim .int {}

/-- The type of a field whose whole numbers are written in another way. -/
def intReprType (g : Graph) (repr : IntRepr) : Nat → ShapeId → Build (Ty Authored)
  | 0, _ => throw .endless
  | fuel + 1, id =>
    match g.shape id with
    | .option inner => return (← intReprType g repr fuel inner).optional
    | .list _ inner => return .list (← intReprType g repr fuel inner) {}
    | .pointer _ inner => intReprType g repr fuel inner
    | .scalar s =>
      if s.isInteger then return .prim (match repr with | .text => .string | .int64 => .int) {}
      else fail (.scalar s) (.notInteger s.ident)
    | shape => fail shape (.notInteger shape.ident)

/-- Registers the class of one entry of a map written as pairs. -/
def entryClass (self : ShapeId → Build (Ty Authored)) (key value : ShapeId) (ctx : FieldContext) :
    Build String := do
  let (internal, rendered) := entryClassName ctx
  let k ← self key
  let v ← self value
  registerClass {
    name := .of internal rendered
    fields := [⟨⟨"key", none⟩, k, none, false⟩, ⟨⟨"value", none⟩, v, none, false⟩] }
  return internal

/-- The type of a field whose maps are written in another way. -/
def keyReprType (g : Graph) (self : ShapeId → Build (Ty Authored)) (repr : KeyRepr)
    (ctx : FieldContext) : Nat → ShapeId → Build (Ty Authored)
  | 0, _ => throw .endless
  | fuel + 1, id => do
    match g.shape id with
    | .option inner => return (← keyReprType g self repr ctx fuel inner).optional
    | .list _ inner => return .list (← keyReprType g self repr ctx fuel inner) {}
    | .pointer _ inner => keyReprType g self repr ctx fuel inner
    | .map _ key value =>
      match repr with
      | .text => return .map (.prim .string {}) (← self value) {}
      | .pairs => return .list (.classRef (← entryClass self key value ctx) .complete false {}) {}
    | _ => self id

/-- The type of a field: its codec's, else that of another way to write whole numbers or maps, else
its shape's. -/
def fieldType (g : Graph) (self : ShapeId → Build (Ty Authored)) (f : Field) (ctx : FieldContext) :
    Build (Ty Authored) := do
  match f.codec with
  | some codec =>
    if let some register := codec.register then
      let s ← get
      let registry ← liftExcept (register ctx s.registry)
      set { s with registry := registry, codecCalls := s.codecCalls ++ [ctx] }
    liftExcept codec.type
  | none =>
    match f.intRepr, f.keyRepr with
    | some repr, _ => intReprType g repr (g.size + 1) f.shape
    | none, some repr => keyReprType g self repr ctx (g.size + 1) f.shape
    | none, none => self f.shape
where
  liftExcept {α : Type} (e : Except Fault α) : Build α := MonadExcept.ofExcept e

/-- One field of a struct or variant. -/
def fieldDef (g : Graph) (self : ShapeId → Build (Ty Authored)) (owner : Shape) (ownerName : String)
    (variant : Option Variant) (f : Field) : Build FieldDef := do
  pushTrail f.name
  let ctx : FieldContext :=
    ⟨ownerName, f.name, f.rendered, variant.map (·.name), variant.map (·.rendered)⟩
  let bare ← fieldType g self f ctx
  let type := bare.withConstraints (← validConstraints owner f.checks f.asserts)
  popTrail
  return {
    name := .of f.name f.rendered
    type := if f.default.isSome && !type.isOptional then type.optional else type
    description := f.description.or (docDescription f.doc) }

/-- The fields of a struct or variant that are not skipped. -/
def fieldDefs (g : Graph) (self : ShapeId → Build (Ty Authored)) (owner : Shape)
    (ownerName : String) (variant : Option Variant) (fields : List Field) : Build (List FieldDef) :=
  (fields.filter fun f => !f.skip).mapM (fieldDef g self owner ownerName variant)

/-- A struct: a class with its fields. -/
def structType (g : Graph) (self : ShapeId → Build (Ty Authored)) (id : ShapeId) (d : Declared)
    (fields : List Field) : Build (Ty Authored) := do
  let internal ← internalName id d.baseName
  let constraints ← validConstraints (.struct d fields) d.checks d.asserts
  let type := (Ty.classRef internal .complete false {}).withConstraints constraints
  visit id type
  let fs ← fieldDefs g self (.struct d fields) internal none fields
  registerClass {
    name := .of internal d.rendered
    description := d.description.or (docDescription d.doc)
    fields := fs
    constraints := constraints }
  return type

/-- An enum without fields, as an enum definition. -/
def enumDef (internal : String) (d : Declared) (variants : List Variant)
    (constraints : List Constraint) : EnumDef where
  name := .of internal d.rendered
  description := d.description.or (docDescription d.doc)
  values := variants.map fun v => ⟨.of v.name v.rendered, v.description.or (docDescription v.doc)⟩
  constraints := constraints

/-- The class of one variant: the tag field, then the variant's own. -/
def variantClass (g : Graph) (self : ShapeId → Build (Ty Authored)) (owner : Shape)
    (internal rendered tag : String) (v : Variant) : Build Unit := do
  if let some f := v.fields.find? fun f => f.name == tag || f.rendered == tag then
    fail owner (.tagCollision v.name f.name tag)
  pushTrail v.name
  let fs ← fieldDefs g self owner internal (some v) v.fields
  popTrail
  registerClass {
    name := .of (variantClassName internal v) (rendered ++ "_" ++ v.rendered)
    description := v.description.or (docDescription v.doc)
    fields := ⟨⟨tag, none⟩, .literal (.string v.rendered) {}, none, false⟩ :: fs }

/-- An enum: a union of classes if a variant has fields, else an enum or a union of texts. -/
def enumType (g : Graph) (defaultTag : String) (self : ShapeId → Build (Ty Authored)) (id : ShapeId)
    (d : Declared) (tag : Option String) (asUnion : Bool) (variants : List Variant) :
    Build (Ty Authored) := do
  let shape := Shape.enum d tag asUnion variants
  let internal ← internalName id d.baseName
  let constraints ← validConstraints shape d.checks d.asserts
  if isDataEnum variants then
    let classes :=
      variants.map fun v => Ty.classRef (variantClassName internal v) .complete false {}
    let type := (Ty.unionOf classes {}).withConstraints constraints
    visit id type
    variants.forM (variantClass g self shape internal d.rendered (tag.getD defaultTag))
    return type
  else if asUnion then
    let texts := variants.map fun v => Ty.literal (.string v.rendered) {}
    let type := (Ty.unionOf texts {}).withConstraints constraints
    visit id type
    return type
  else
    let type := (Ty.enumRef internal false {}).withConstraints constraints
    visit id type
    registerEnum (enumDef internal d variants constraints)
    return type

/-- One shape, in terms of the shapes below it. -/
def step (g : Graph) (defaultTag : String) (self : ShapeId → Build (Ty Authored)) (id : ShapeId) :
    Build (Ty Authored) := do
  match Entries.find? (← get).visited id with
  | some t => return t
  | none =>
    match g.shape id with
    | .scalar s => scalarType s
    | .option inner => return (← self inner).optional
    | .list _ inner => return .list (← self inner) {}
    | .map kind key value =>
      let v ← self value
      match kind, g.unwrap key with
      | .object, _ | .map, .scalar .string | .map, .scalar .char =>
        return .map (.prim .string {}) v {}
      | .map, k => fail (.map kind key value) (.mapKey k.ident)
    | .pointer _ inner => self inner
    | .struct d fields => structType g self id d fields
    | .enum d tag asUnion variants => enumType g defaultTag self id d tag asUnion variants
    | .foreign form ident => fail (.foreign form ident) (.foreign form)

/-- A shape's type, walked to a depth of at most `fuel`. -/
def typeWithin (g : Graph) (defaultTag : String) : Nat → ShapeId → Build (Ty Authored)
  | 0, _ => throw .endless
  | fuel + 1, id => step g defaultTag (typeWithin g defaultTag fuel) id

/-- Depth that suffices for a graph: between two structs or enums no shape repeats. -/
def depthBound (g : Graph) : Nat := (g.size + 1) * (g.size + 1)

/-- A shape's type; the trail goes on where it stands. -/
def buildType (g : Graph) (defaultTag : String) (id : ShapeId) : Build (Ty Authored) :=
  typeWithin g defaultTag (depthBound g) id

/-- A shape's type as the root of a new trail. -/
def build (g : Graph) (defaultTag : String) (id : ShapeId) : Build (Ty Authored) := do
  modify fun s => { s with trail := [(g.shape id).ident] }
  buildType g defaultTag id

end Builder

/-- The tag field of data enums that name none, unless configured. -/
def standardTagField : String := "type"

/-- A built schema with the names that structs and enums received. -/
structure Bundle where
  schema : Schema
  names : List (ShapeId × String)
  tagField : String

/-- The bundle of a builder that has reached a state. -/
def Bundle.of (s : BuildState) (target : Ty Authored) (tagField : String) : Bundle :=
  ⟨s.registry.freeze target, s.names, tagField⟩

/-- Builds the schema of a shape; the state holds what was logged, also if it fails. -/
def buildSchema (g : Graph) (id : ShapeId) (tagField : String) : Except Fault Bundle × BuildState :=
  let (result, s) := (Builder.build g tagField id).run.run {}
  (result.map fun t => .of s t tagField, s)

end ShapeSchema
