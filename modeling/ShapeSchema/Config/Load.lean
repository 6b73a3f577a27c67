import ShapeSchema.Config.Basic
import ShapeSchema.Config.Yaml
import ShapeSchema.Native.JsonReader
import ShapeSchema.Text.Case
import ShapeSchema.Fault.Basic

/-!
# Loading a configuration

Settings come from variables of the environment, from a file and from overrides, each on top of the
one before. A file or other plain data gives only the settings that it names in a readable way; keys
are written in camel case or in snake case.
-/

namespace ShapeSchema

/-! ## Readers of single settings -/

namespace Setting

def text? : Native → Option String
  | .text s => some s
  | _ => none

def bool? : Native → Option Bool
  | .bool b => some b
  | .text "true" | .text "1" => some true
  | .text "false" | .text "0" => some false
  | _ => none

/-- A text, or none by `null` or the word `none`. -/
def nullableText? : Native → Option (Option String)
  | .null => some none
  | .text "none" => some none
  | .text s => some (some s)
  | _ => none

def mapStyle? : Native → Option MapStyle
  | .text "TypeParameters" => some .typeParameters
  | .text "ObjectLiteral" => some .objectLiteral
  | _ => none

def hoist? : Native → Option HoistClasses
  | .text "auto" => some .auto
  | .text "all" => some .all
  | .text "none" => some .none
  | _ => none

def logLevel? : Native → Option LogLevel
  | .text s => LogLevel.ofText? s
  | _ => none

/-- The member under the first key, or if there is none under the second. -/
def pick (data : List (String × Native)) (camel snake : String) : Native :=
  match Entries.find? data camel with
  | some v => v
  | none => Native.member data snake

/-- A setting that is given and not absent; an unreadable value counts as none. -/
def nullable (v : Native) : Option (Option String) :=
  match v with
  | .absent => none
  | v => some ((nullableText? v).getD none)

/-- The members of a section, if it is an object. -/
def group (data : List (String × Native)) (key : String) : List (String × Native) :=
  ((Native.member data key).members?).getD []

end Setting

/-- The settings that plain data give. -/
def ConfigLayer.ofMembers (data : List (String × Native)) : ConfigLayer :=
  let render := Setting.group data "render"
  { preamble := Setting.nullable (Native.member render "prefix")
    orSplitter := Setting.text? (Setting.pick render "orSplitter" "or_splitter")
    enumValueLead := Setting.nullable (Setting.pick render "enumValuePrefix" "enum_value_prefix")
    alwaysHoistEnums := Setting.bool? (Setting.pick render "alwaysHoistEnums" "always_hoist_enums")
    mapStyle := Setting.mapStyle? (Setting.pick render "mapStyle" "map_style")
    hoistClasses := Setting.hoist? (Setting.pick render "hoistClasses" "hoist_classes")
    quoteClassFields := Setting.bool? (Setting.pick render "quoteClassFields" "quote_class_fields")
    defaultTagField :=
      Setting.text?
        (Setting.pick (Setting.group data "schema") "defaultTagField" "default_tag_field")
    logLevel := Setting.logLevel? (Native.member (Setting.group data "log") "level") }

/-! ## Environment -/

/-- Variables of the environment. -/
abbrev Environment := List (String × String)

/-- How the variables' names begin unless another beginning is asked for. -/
def standardEnvStem : String := "BAML_BRIDGE"

/-- The variable of a setting as plain data, absent if it is not set. -/
def Environment.setting (env : Environment) (stem name : String) : Native :=
  ((Entries.find? env (stem ++ "_" ++ name)).map Native.text).getD .absent

/-- A text that is not empty. -/
def nonEmptyText? (v : Native) : Option String := (Setting.text? v).filter (· != "")

/-- The settings that the environment gives. -/
def ConfigLayer.ofEnvironment (stem : String) (env : Environment) : ConfigLayer where
  preamble := Setting.nullable (env.setting stem "PREFIX")
  orSplitter := nonEmptyText? (env.setting stem "OR_SPLITTER")
  enumValueLead := Setting.nullable (env.setting stem "ENUM_VALUE_PREFIX")
  alwaysHoistEnums := Setting.bool? (env.setting stem "ALWAYS_HOIST_ENUMS")
  mapStyle := Setting.mapStyle? (env.setting stem "MAP_STYLE")
  hoistClasses := Setting.hoist? (env.setting stem "HOIST_CLASSES")
  quoteClassFields := Setting.bool? (env.setting stem "QUOTE_CLASS_FIELDS")
  defaultTagField := nonEmptyText? (env.setting stem "TAG_FIELD")
  logLevel := Setting.logLevel? (env.setting stem "LOG_LEVEL")

/-! ## Files -/

/-- A directory's path and the texts of its files. -/
structure Directory where
  path : String
  files : List (String × String)

/-- Names of the files that are looked for, in order. -/
def standardConfigFiles : List String :=
  ["baml-bridge.config.json", "baml-bridge.config.yaml", "baml-bridge.config.yml"]

/-- The extension of a file's name with its point; a name that only starts with a point has none. -/
def extensionOf (name : String) : String :=
  let base := (name.toList.reverse.takeWhile (· != '/')).reverse
  let tail := base.reverse.takeWhile (· != '.')
  if base.length ≤ tail.length + 1 || base == "..".toList then ""
  else String.ofList ('.' :: tail.reverse)

/-- The data of a configuration file. -/
def configData (fileName content : String) : Except ConfigError Native :=
  match Text.lower (extensionOf fileName) with
  | ".json" => match Native.ofJson? content with
    | some v => .ok v
    | none => .error .malformed
  | ".yaml" | ".yml" => .ok (Yaml.read content)
  | other => .error (.unknownFormat other)

/-- The settings of a configuration file. -/
def Directory.layer (d : Directory) (name : String) : Except ConfigError ConfigLayer := do
  let path := d.path ++ "/" ++ name
  match Entries.find? d.files name with
  | none => .error (.fileNotFound path)
  | some content =>
    match (← configData name content).members? with
    | some ms => return .ofMembers ms
    | none => .error (.notAnObject path)

/-- The settings of the file that is asked for, else of the first standard file there is. -/
def Directory.chosenLayer (d : Directory) (file : Option String) :
    Except ConfigError (Option ConfigLayer) :=
  match file with
  | some name => some <$> d.layer name
  | none =>
    match standardConfigFiles.find? fun n => (Entries.find? d.files n).isSome with
    | some name => some <$> d.layer name
    | none => return none

/-- The configuration of environment, file and overrides. -/
def Config.load (env : Environment) (d : Directory) (file : Option String)
    (overrides : Option ConfigLayer) : Except ConfigError Config := do
  let layer ← d.chosenLayer file
  return .ofLayers ([.ofEnvironment standardEnvStem env] ++ layer.toList ++ overrides.toList)

end ShapeSchema
