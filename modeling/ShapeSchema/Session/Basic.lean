import ShapeSchema.Session.Cache
import ShapeSchema.Config.Load
import ShapeSchema.Schema.Fingerprint
import ShapeSchema.Convert.Write
import ShapeSchema.Convert.Parse
import ShapeSchema.Resolve.Cursor

/-!
# Sessions

A session holds a valid configuration, an evaluator of constraints and the schemas built so far;
every conversion builds the schema of its shape first, if that has not happened yet.
-/

namespace ShapeSchema

structure Session where
  config : Config
  eval : Evaluator
  cache : SchemaCache

namespace Session

/-- A session for a valid configuration, with the warnings about it. -/
def start (config : Config) (eval : Evaluator) : Except ConfigError (Session × List Event) :=
  let report := config.check
  if report.valid then
    .ok (⟨config, eval, { tagField := config.defaultTagField }⟩,
      report.warnings.map fun w => ⟨.warn, w, none⟩)
  else .error (.invalid report.errors)

/-- Does something with a shape's schema. -/
def withSchema {α : Type} (s : Session) (g : Graph) (id : ShapeId) (f : Bundle → Checked α) :
    Checked α × Session :=
  let (result, events, cache) := s.cache.get g id
  let s := { s with cache := cache }
  match result with
  | .error e => (⟨events, .error e⟩, s)
  | .ok b =>
    let r := f b
    (⟨events ++ r.events, r.result⟩, s)

/-- A result without notes or events. -/
def lift {α : Type} (r : Except Fault α) : Checked α := ⟨[], r.map fun a => (a, {})⟩

def schema (s : Session) (g : Graph) (id : ShapeId) : Checked Bundle × Session :=
  s.withSchema g id pure

/-- The schema of a shape; a build error becomes a failed outcome, any other fault stays one. -/
def schemaOutcome (s : Session) (g : Graph) (id : ShapeId) : Checked (Outcome Bundle) × Session :=
  let (r, s) := s.schema g id
  match r.result with
  | .error (.build e) => (⟨r.events, .ok (.fail e.failure { path := some e.trail }, {})⟩, s)
  | .error e => (⟨r.events, .error e⟩, s)
  | .ok (b, notes) => (⟨r.events, .ok (.ok b, notes)⟩, s)

def fingerprint (s : Session) (g : Graph) (id : ShapeId) : Checked String × Session :=
  s.withSchema g id fun b => pure (b.schema.fingerprint s.config.render)

/-- Writes a native value. -/
def toValue (s : Session) (g : Graph) (id : ShapeId) (v : Native) : Checked Value × Session :=
  s.withSchema g id fun b => lift (Converter.write ⟨g, b.nameTable⟩ id v .root)

/-- Reads a dynamic value. -/
def fromValue (s : Session) (g : Graph) (id : ShapeId) (v : Value) : Checked Native × Session :=
  s.withSchema g id fun b => lift (Converter.read ⟨g, b.nameTable⟩ id v .root)

def parse (s : Session) (g : Graph) (id : ShapeId) (v : Value) : Checked Parsed × Session :=
  s.withSchema g id fun b => Parser.parse ⟨g, b, id, s.eval, .quiet⟩ v

/-- Parses a value; build errors and the faults of parsing become failed outcomes. -/
def parseOutcome (s : Session) (g : Graph) (id : ShapeId) (v : Value) :
    Checked (Outcome Parsed) × Session :=
  let (r, s) := s.schemaOutcome g id
  match r.result with
  | .error e => (⟨r.events, .error e⟩, s)
  | .ok (.fail e note, notes) => (⟨r.events, .ok (.fail e note, notes)⟩, s)
  | .ok (.done b _, notes) =>
    let (events, o) := Parser.outcome ⟨g, b, id, s.eval, .quiet⟩ v
    (⟨r.events ++ events, .ok (o, notes)⟩, s)

/-- A cursor on a native value, with the schema to navigate it by. -/
def cursor (s : Session) (g : Graph) (id : ShapeId) (v : Native) :
    Checked (Schema × Cursor) × Session :=
  s.withSchema g id fun b => lift do
    return (b.schema, ⟨← Converter.write ⟨g, b.nameTable⟩ id v .root, b.schema.target, .root⟩)

end Session

end ShapeSchema
