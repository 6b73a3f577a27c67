import ShapeSchema.Native.Canonical
import ShapeSchema.Text.Blank
import ShapeSchema.Log.Event

/-!
# Configuration

How a schema is rendered, which tag field data enums use and how much is logged. A layer gives some
of the settings; settings of a later layer replace those of an earlier one, each on its own.
-/

namespace ShapeSchema

inductive MapStyle where
  | typeParameters | objectLiteral
deriving DecidableEq, Inhabited

def MapStyle.text : MapStyle → String
  | .typeParameters => "TypeParameters"
  | .objectLiteral => "ObjectLiteral"

inductive HoistClasses where
  | auto | all | none
deriving DecidableEq, Inhabited

def HoistClasses.text : HoistClasses → String
  | .auto => "auto"
  | .all => "all"
  | .none => "none"

/-- How a schema is shown to a model. -/
structure RenderOptions where
  /-- Text before the schema. -/
  preamble : Option String := none
  /-- Text between the members of a union. -/
  orSplitter : String := " or "
  /-- Text before each enum value. -/
  enumValueLead : Option String := none
  alwaysHoistEnums : Bool := false
  mapStyle : MapStyle := .typeParameters
  hoistClasses : HoistClasses := .auto
  quoteClassFields : Bool := false
deriving DecidableEq, Inhabited

structure Config where
  render : RenderOptions := {}
  /-- Tag field of data enums that name none. -/
  defaultTagField : String := "type"
  logLevel : LogLevel := .warn
deriving DecidableEq, Inhabited

/-- Some of the settings; a text that may be missing is set to `none` by `some none`. -/
structure ConfigLayer where
  preamble : Option (Option String) := none
  orSplitter : Option String := none
  enumValueLead : Option (Option String) := none
  alwaysHoistEnums : Option Bool := none
  mapStyle : Option MapStyle := none
  hoistClasses : Option HoistClasses := none
  quoteClassFields : Option Bool := none
  defaultTagField : Option String := none
  logLevel : Option LogLevel := none
deriving DecidableEq, Inhabited

/-- Replaces the settings that a layer gives. -/
def Config.override (c : Config) (l : ConfigLayer) : Config where
  render := {
    preamble := l.preamble.getD c.render.preamble
    orSplitter := l.orSplitter.getD c.render.orSplitter
    enumValueLead := l.enumValueLead.getD c.render.enumValueLead
    alwaysHoistEnums := l.alwaysHoistEnums.getD c.render.alwaysHoistEnums
    mapStyle := l.mapStyle.getD c.render.mapStyle
    hoistClasses := l.hoistClasses.getD c.render.hoistClasses
    quoteClassFields := l.quoteClassFields.getD c.render.quoteClassFields }
  defaultTagField := l.defaultTagField.getD c.defaultTagField
  logLevel := l.logLevel.getD c.logLevel

/-- The defaults under some layers, the last of them on top. -/
def Config.ofLayers (layers : List ConfigLayer) : Config := layers.foldl Config.override {}

/-! ## Plain data -/

def optionalText (t : Option String) : Native := t.elim .null .text

def RenderOptions.toNative (o : RenderOptions) : Native := .object [
  ("prefix", optionalText o.preamble), ("orSplitter", .text o.orSplitter),
  ("enumValuePrefix", optionalText o.enumValueLead), ("alwaysHoistEnums", .bool o.alwaysHoistEnums),
  ("mapStyle", .text o.mapStyle.text), ("hoistClasses", .text o.hoistClasses.text),
  ("quoteClassFields", .bool o.quoteClassFields)]

def Config.toNative (c : Config) : Native := .object [
  ("render", c.render.toNative), ("schema", .object [("defaultTagField", .text c.defaultTagField)]),
  ("log", .object [("level", .text c.logLevel.text)])]

/-- A layer as plain data: the settings that it gives. -/
def ConfigLayer.toNative (l : ConfigLayer) : Native :=
  let given {α : Type} (key : String) (f : α → Native) (v : Option α) : List (String × Native) :=
    (v.map fun x => (key, f x)).toList
  .object [
    ("render", .object (given "prefix" optionalText l.preamble
      ++ given "orSplitter" .text l.orSplitter
      ++ given "enumValuePrefix" optionalText l.enumValueLead
      ++ given "alwaysHoistEnums" .bool l.alwaysHoistEnums
      ++ given "mapStyle" (fun m => .text m.text) l.mapStyle
      ++ given "hoistClasses" (fun h => .text h.text) l.hoistClasses
      ++ given "quoteClassFields" .bool l.quoteClassFields)),
    ("schema", .object (given "defaultTagField" .text l.defaultTagField)),
    ("log", .object (given "level" (fun v => .text v.text) l.logLevel))]

/-! ## Validation -/

/-- Errors and warnings about a configuration. -/
structure ConfigReport where
  errors : List String
  warnings : List String

def ConfigReport.valid (r : ConfigReport) : Bool := r.errors.isEmpty

/-- An ASCII letter or underscore. -/
def isIdentifierStart (c : Char) : Bool := c.isAlpha || c == '_'

/-- An ASCII identifier. -/
def isIdentifier (s : String) : Bool :=
  match s.toList with
  | [] => false
  | c :: cs => isIdentifierStart c && cs.all fun d => isIdentifierStart d || d.isDigit

def Config.check (c : Config) : ConfigReport where
  errors :=
    (if isIdentifier c.defaultTagField then []
     else ["defaultTagField must be an identifier: " ++ Text.quoted c.defaultTagField])
    ++ (if Text.allBlank c.render.orSplitter then
        ["orSplitter must contain a non-space character"]
      else [])
  warnings :=
    match c.render.preamble with
    | some p => if Text.allBlank p then ["prefix is blank; use null to render no prefix"] else []
    | none => []

end ShapeSchema
