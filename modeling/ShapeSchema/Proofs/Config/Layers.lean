import ShapeSchema.Config.Load

/-!
# Layers of a configuration

Each setting of a loaded configuration is looked up on its own, in the overrides, the file, the
environment and the defaults (`Config.load_layered`). The exception are the two texts that may be
missing: a file that has something unreadable for them takes the text of the environment away.
-/

namespace ShapeSchema

/-! ## Settings -/

inductive ConfigSetting where
  | preamble | orSplitter | enumValueLead | alwaysHoistEnums | mapStyle | hoistClasses
  | quoteClassFields | defaultTagField | logLevel
deriving DecidableEq

/-- What a setting can be set to. -/
def ConfigSetting.Value : ConfigSetting → Type
  | .preamble | .enumValueLead => Option String
  | .orSplitter | .defaultTagField => String
  | .alwaysHoistEnums | .quoteClassFields => Bool
  | .mapStyle => MapStyle
  | .hoistClasses => HoistClasses
  | .logLevel => LogLevel

def Config.value (c : Config) : (s : ConfigSetting) → s.Value
  | .preamble => c.render.preamble
  | .orSplitter => c.render.orSplitter
  | .enumValueLead => c.render.enumValueLead
  | .alwaysHoistEnums => c.render.alwaysHoistEnums
  | .mapStyle => c.render.mapStyle
  | .hoistClasses => c.render.hoistClasses
  | .quoteClassFields => c.render.quoteClassFields
  | .defaultTagField => c.defaultTagField
  | .logLevel => c.logLevel

def ConfigLayer.value? (l : ConfigLayer) : (s : ConfigSetting) → Option s.Value
  | .preamble => l.preamble
  | .orSplitter => l.orSplitter
  | .enumValueLead => l.enumValueLead
  | .alwaysHoistEnums => l.alwaysHoistEnums
  | .mapStyle => l.mapStyle
  | .hoistClasses => l.hoistClasses
  | .quoteClassFields => l.quoteClassFields
  | .defaultTagField => l.defaultTagField
  | .logLevel => l.logLevel

namespace ConfigSetting

/-- The section of plain data that the setting is in. -/
def group : ConfigSetting → String
  | .defaultTagField => "schema"
  | .logLevel => "log"
  | _ => "render"

/-- The key in camel case. -/
def camel : ConfigSetting → String
  | .preamble => "prefix"
  | .orSplitter => "orSplitter"
  | .enumValueLead => "enumValuePrefix"
  | .alwaysHoistEnums => "alwaysHoistEnums"
  | .mapStyle => "mapStyle"
  | .hoistClasses => "hoistClasses"
  | .quoteClassFields => "quoteClassFields"
  | .defaultTagField => "defaultTagField"
  | .logLevel => "level"

/-- The key in snake case. -/
def snake : ConfigSetting → String
  | .preamble => "prefix"
  | .orSplitter => "or_splitter"
  | .enumValueLead => "enum_value_prefix"
  | .alwaysHoistEnums => "always_hoist_enums"
  | .mapStyle => "map_style"
  | .hoistClasses => "hoist_classes"
  | .quoteClassFields => "quote_class_fields"
  | .defaultTagField => "default_tag_field"
  | .logLevel => "level"

section Layered

variable (s : ConfigSetting) (given : Option s.Value) (named : Option Native)
  (text : Option String)

end Layered

end ConfigSetting

/-! ## Layers -/

open ConfigSetting

section Readers

variable {α : Type} {read : Native → Option α}

end Readers

/-- A file of the directory whose data are an object of the given members. -/
def Directory.Holds (d : Directory) (name : String) (data : List (String × Native)) : Prop :=
  ∃ content v, Entries.find? d.files name = some content ∧ configData name content = .ok v ∧
    v.members? = some data

theorem Config.override_empty (c : Config) : c.override {} = c := rfl

end ShapeSchema
