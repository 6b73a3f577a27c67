import ShapeSchema.Schema.Registry
import ShapeSchema.Ty.Canonical
import ShapeSchema.Config.Basic

/-!
# Fingerprints of schemas

The fingerprint hashes a schema as a model sees it: every reference by its rendered name, every
definition as a view without real names, the views in order of name and then of content. Renaming
what is never shown does not change it.
-/

namespace ShapeSchema

namespace Schema

/-- Rendered names in place of real ones; of several definitions under one name the last counts. -/
def renderedNames (s : Schema) : Ty.Renaming where
  classes n := (s.classes.reverse.find? fun c => c.name.real == n).map fun c => c.name.rendered
  enums n := (s.enums.reverse.find? fun e => e.name.real == n).map fun e => e.name.rendered

/-- A type with rendered names, as plain data. -/
def typeView (s : Schema) (t : Ty Authored) : Native := (t.rename s.renderedNames).toNative

def fieldView (s : Schema) (f : FieldDef) : Native := .object [
  ("name", .text f.name.rendered), ("type", s.typeView f.type),
  ("description", optionalText f.description)]

def classView (s : Schema) (c : ClassDef) : Native := .object [
  ("name", .text c.name.rendered), ("description", optionalText c.description),
  ("mode", .text c.mode.text), ("constraints", constraintsToNative c.constraints),
  ("fields", .array (c.fields.map s.fieldView))]

def enumView (e : EnumDef) : Native := .object [
  ("name", .text e.name.rendered), ("description", optionalText e.description),
  ("constraints", constraintsToNative e.constraints),
  ("values", .array (e.values.map fun v => .object [
    ("name", .text v.name.rendered), ("description", optionalText v.description)]))]

/-- Order of views: by name, then by canonical text. -/
def viewLe (a b : String × Native) : Bool :=
  if a.1 = b.1 then Text.le (a.2.canonical true) (b.2.canonical true) else Text.le a.1 b.1

/-- Views in order of name and content. -/
def sortViews (views : List (String × Native)) : Native :=
  .array ((views.mergeSort viewLe).map (·.2))

/-- What a fingerprint hashes. -/
def payload (s : Schema) (options : RenderOptions) : Native := .object [
  ("options", options.toNative), ("target", s.typeView s.target),
  ("classes", sortViews (s.classes.map fun c => (c.name.rendered, s.classView c))),
  ("enums", sortViews (s.enums.map fun e => (e.name.rendered, enumView e)))]

/-- The fingerprint of a schema under render options. -/
def fingerprint (s : Schema) (options : RenderOptions) : String :=
  "schema:sha256:" ++ Digest.shortHex ((s.payload options).canonical true)

end Schema

end ShapeSchema
