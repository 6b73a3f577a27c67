import ShapeSchema.Schema.Definition
import ShapeSchema.Schema.Cycles
import ShapeSchema.Ty.Streaming

/-!
# Registries and schemas

A registry collects definitions; the first one under a name counts, for classes the first under a
name and mode, while the last expansion of an alias counts. Frozen around a target type it becomes a
schema: definitions in a fixed order, with the classes that refer to themselves in a circle. A class
without a definition for partial values gets one derived from its complete definition.
-/

namespace ShapeSchema

/-- A target type with the definitions it refers to. -/
structure Schema where
  target : Ty Authored
  enums : List EnumDef
  classes : List ClassDef
  recursiveClasses : List String
  aliases : List (String × Ty Authored)

/-- The definition for partial values that follows from a complete one. -/
def ClassDef.streamed (c : ClassDef) : ClassDef :=
  { c with
    mode := .partialValue
    fields := c.fields.map fun f => { f with type := f.type.toStreamed.toAuthored } }

namespace Schema

def findEnum? (s : Schema) (name : String) : Option EnumDef :=
  s.enums.find? fun e => e.name.real == name

/-- The class registered under a name and mode. -/
def registered? (s : Schema) (name : String) (mode : Mode) : Option ClassDef :=
  s.classes.find? fun c => c.name.real == name && c.mode == mode

/-- The class of a name and mode, derived from the complete definition if none is registered for
partial values. -/
def findClass? (s : Schema) (name : String) (mode : Mode) : Option ClassDef :=
  match mode with
  | .complete => s.registered? name .complete
  | .partialValue =>
    (s.registered? name .partialValue).or ((s.registered? name .complete).map ClassDef.streamed)

/-- What an alias stands for. -/
def expand? (s : Schema) (name : String) : Option (Ty Authored) := Entries.find? s.aliases name

def isRecursive (s : Schema) (name : String) : Bool := s.recursiveClasses.contains name

/-- The names of the aliases that have an expansion. -/
def aliasNames (s : Schema) : List String := s.aliases.map (·.1)

end Schema

/-- Definitions in order of registration. -/
structure Registry where
  enums : List EnumDef := []
  classes : List ClassDef := []
  aliases : List (String × Ty Authored) := []
  marks : List String := []
deriving Inhabited

namespace Registry

/-- Claims a name; false if it was claimed before. -/
def mark (r : Registry) (name : String) : Bool × Registry :=
  if r.marks.contains name then (false, r) else (true, { r with marks := r.marks ++ [name] })

def hasClass (r : Registry) (name : String) (mode : Mode) : Bool :=
  r.classes.any fun c => c.name.real == name && c.mode == mode

def hasEnum (r : Registry) (name : String) : Bool := r.enums.any fun e => e.name.real == name

def addEnum (r : Registry) (e : EnumDef) : Registry :=
  if r.hasEnum e.name.real then r else { r with enums := r.enums ++ [e] }

def addClass (r : Registry) (c : ClassDef) : Registry :=
  if r.hasClass c.name.real c.mode then r else { r with classes := r.classes ++ [c] }

def addAlias (r : Registry) (name : String) (type : Ty Authored) : Registry :=
  { r with aliases := Entries.insert r.aliases name type }

/-- The classes and aliases that a class's fields refer to. -/
def fieldReferences (c : ClassDef) : List String :=
  (c.fields.flatMap fun f => f.type.classNames).eraseDups

/-- The classes with what their fields refer to, in either mode. -/
def dependencies (r : Registry) : Dependencies :=
  let names := (r.classes.map fun c => c.name.real).eraseDups
  names.map fun n =>
    (n, ((r.classes.filter fun c => c.name.real == n).flatMap fieldReferences).eraseDups)

/-- Order of class definitions: by name, the complete definition before the partial one. -/
def classLe (a b : ClassDef) : Bool :=
  if a.name.real = b.name.real then a.mode == .complete || b.mode == .partialValue
  else Text.le a.name.real b.name.real

/-- The schema of a target type. -/
def freeze (r : Registry) (target : Ty Authored) : Schema where
  target := target
  enums := r.enums.mergeSort fun a b => Text.le a.name.real b.name.real
  classes := r.classes.mergeSort classLe
  recursiveClasses := r.dependencies.recursive
  aliases := r.aliases

end Registry

end ShapeSchema
