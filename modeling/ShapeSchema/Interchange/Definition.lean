import ShapeSchema.Interchange.Type
import ShapeSchema.Schema.Registry

/-!
# Definitions and schemas as exchanged

A definition is an object with its name and, if it is shown under another one, that name as `alias`.
What is not set is left out; constraints and the streaming flags of a class are always written.
-/

namespace ShapeSchema.Interchange

/-! ## Writing -/

def showName (n : Name) : List (String × Native) :=
  [("name", .text n.real), ("alias", optText n.shown)]

def showField (f : FieldDef) : Native :=
  .object (showName f.name ++ [("type", showType f.type), ("description", optText f.description),
    ("dynamic", ifTrue f.dynamic)])

def showFlags (f : StreamFlags) : Native :=
  .object [("needed", .bool f.needed), ("done", .bool f.done), ("state", .bool f.state)]

def showClass (c : ClassDef) : Native :=
  .object (showName c.name ++ [("description", optText c.description), ("mode", showMode c.mode),
    ("dynamic", ifTrue c.dynamic), ("fields", .array (c.fields.map showField)),
    ("constraints", constraintsToNative c.constraints), ("streaming", showFlags c.flags)])

def showEnumValue (v : EnumValueDef) : Native :=
  .object (showName v.name ++ [("description", optText v.description)])

def showEnum (e : EnumDef) : Native :=
  .object (showName e.name ++ [("description", optText e.description),
    ("values", .array (e.values.map showEnumValue)),
    ("constraints", constraintsToNative e.constraints)])

/-- The members of a schema that hold no definitions of classes and enums. -/
def showCycles (s : Schema) : List (String × Native) := [
  ("recursiveClasses", texts s.recursiveClasses),
  ("aliases", .array (s.aliases.map fun p => .array [.text p.1, showType p.2]))]

/-- A schema as exchanged. -/
def showSchema (s : Schema) : Native :=
  .object ([("target", showType s.target), ("classes", .array (s.classes.map showClass)),
    ("enums", .array (s.enums.map showEnum))] ++ showCycles s)

/-! ## Reading -/

def readName (j : Native) : Name := .of (textOf (field j "name")) (text? (field j "alias"))

def readField (j : Native) : FieldDef where
  name := readName j
  type := readType (field j "type")
  description := text? (field j "description")
  dynamic := flag (field j "dynamic")

def readFlags (j : Native) : StreamFlags :=
  ⟨flag (field j "needed"), flag (field j "done"), flag (field j "state")⟩

def readClass (j : Native) : ClassDef where
  name := readName j
  description := text? (field j "description")
  mode := readMode (field j "mode")
  dynamic := flag (field j "dynamic")
  fields := (itemsOf (field j "fields")).map readField
  constraints := readConstraints (field j "constraints")
  flags := readFlags (field j "streaming")

/-- An enum value; a text is a value of that name. -/
def readEnumValue : Native → EnumValueDef
  | .text s => ⟨⟨s, none⟩, none⟩
  | j => ⟨readName j, text? (field j "description")⟩

def readEnum (j : Native) : EnumDef where
  name := readName j
  description := text? (field j "description")
  values := (itemsOf (field j "values")).map readEnumValue
  constraints := readConstraints (field j "constraints")

/-- A registry with more definitions: enums, then classes, then aliases. -/
def readDefinitions (j : Native) (r : Registry) : Registry :=
  let r := (itemsOf (field j "enums")).foldl (fun r e => r.addEnum (readEnum e)) r
  let r := (itemsOf (field j "classes")).foldl (fun r c => r.addClass (readClass c)) r
  (itemsOf (field j "aliases")).foldl
    (fun r a => r.addAlias (textOf (pairOf a).1) (readType (pairOf a).2)) r

end ShapeSchema.Interchange
