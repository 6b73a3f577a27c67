import ShapeSchema.Ty.Basic

/-!
# Definitions

Classes and enums that types refer to by name. Every definition, field and enum value has a real
name and possibly another one under which it is shown.
-/

namespace ShapeSchema

/-- A real name and, if it differs, the name that is shown. -/
structure Name where
  real : String
  shown : Option String := none
deriving DecidableEq, Inhabited

namespace Name

/-- A name with its shown form; one equal to the real name is dropped. -/
def of (real : String) (shown : Option String) : Name := ⟨real, shown.filter (· != real)⟩

/-- The name under which something is shown. -/
def rendered (n : Name) : String := n.shown.getD n.real

/-- Is this the real or the shown name? -/
def answersTo (n : Name) (key : String) : Bool := n.real == key || n.shown == some key

end Name

structure FieldDef where
  name : Name
  type : Ty Authored
  description : Option String := none
  dynamic : Bool := false

structure ClassDef where
  name : Name
  description : Option String := none
  mode : Mode := .complete
  dynamic : Bool := false
  fields : List FieldDef
  constraints : List Constraint := []
  flags : StreamFlags := {}

structure EnumValueDef where
  name : Name
  description : Option String := none

structure EnumDef where
  name : Name
  description : Option String := none
  values : List EnumValueDef
  constraints : List Constraint := []

/-- The field with a real name, else with a shown name. -/
def ClassDef.findField? (c : ClassDef) (key : String) : Option FieldDef :=
  (c.fields.find? fun f => f.name.real == key).or (c.fields.find? fun f => f.name.shown == some key)

/-- The value with a real name, else with a shown name. -/
def EnumDef.findValue? (e : EnumDef) (key : String) : Option EnumValueDef :=
  (e.values.find? fun v => v.name.real == key).or (e.values.find? fun v => v.name.shown == some key)

/-- The value under a field's real name, else under its shown name. -/
def Name.lookup? {α : Type} (n : Name) (es : List (String × α)) : Option α :=
  (Entries.find? es n.real).or (n.shown.bind (Entries.find? es))

end ShapeSchema
