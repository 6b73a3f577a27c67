import ShapeSchema.Interchange.Data
import ShapeSchema.Value.Path
import ShapeSchema.Value.Basic

/-!
# Dynamic values as exchanged

Null, truth values, texts and lists stand for themselves; any other value is an object whose first
member names its form. Whole numbers are digits in a text, floats are written by their bits. Entries
are pairs, so that their order is kept.
-/

namespace ShapeSchema.Interchange

def showMedia (m : Media) : Native :=
  .object (("media", .text m.kind.text) :: match m.content with
    | .url url => [("url", .text url)]
    | .file path => [("path", .text path)]
    | .base64 data mime => [("base64", .text data), ("mimeType", optText mime)])

mutual

/-- A value as exchanged. -/
def showValue : Value → Native
  | .null => .null
  | .bool b => .bool b
  | .int n => .object [("int", .text (toString n))]
  | .float d => .object [("float", .text d.hex)]
  | .text s => .text s
  | .list vs => .array (showValues vs)
  | .map es => .object [("map", .array (showEntries es))]
  | .classOf name fs => .object [("class", .text name), ("fields", .array (showEntries fs))]
  | .enumOf name variant => .object [("enum", .text name), ("variant", .text variant)]
  | .media m => showMedia m

def showValues : List Value → List Native
  | [] => []
  | v :: vs => showValue v :: showValues vs

def showEntries : List (String × Value) → List Native
  | [] => []
  | (k, v) :: es => .array [.text k, showValue v] :: showEntries es

end

def readMediaKind (s : String) : MediaKind := (MediaKind.all.find? fun k => k.text == s).getD .image

def readMedia (j : Native) : Media where
  kind := readMediaKind (textOf (field j "media"))
  content :=
    if hasField j "url" then .url (textOf (field j "url"))
    else if hasField j "path" then .file (textOf (field j "path"))
    else .base64 (textOf (field j "base64")) (text? (field j "mimeType"))

/-- The whole number that a text holds. -/
def readInt (j : Native) : Int := (Decimal.readInt? (textOf j)).getD 0

/-- A value from its exchanged form, or the message that refuses a whole number. A `record` is a map
whose keys are ordered as those of a plain object. -/
def readValue (j : Native) : Except String Value :=
  match j with
  | .bool b => .ok (.bool b)
  | .text s => .ok (.text s)
  | .array vs => do return .list (← vs.attach.mapM fun v => readValue v.val)
  | .object ms =>
    let j := Native.object ms
    let entries (key : { k : String // k ∈ ["map", "record", "fields"] }) :
        Except String (List (String × Value)) :=
      (itemsOf (Native.member ms key)).attach.mapM fun e => do
        return (textOf (pairOf e.val).1, ← readValue (pairOf e.val).2)
    if hasField j "int" then Value.ofInt (readInt (field j "int"))
    else if hasField j "float" then .ok (.float (.ofHex (textOf (field j "float"))))
    else if hasField j "map" then do return .ofEntries (← entries ⟨"map", by simp⟩)
    else if hasField j "record" then do
      return .map (Native.objectOrder (Entries.ofList (← entries ⟨"record", by simp⟩)))
    else if hasField j "class" then
      do return .ofFields (textOf (field j "class")) (← entries ⟨"fields", by simp⟩)
    else if hasField j "enum" then
      .ok (.enumOf (textOf (field j "enum")) (textOf (field j "variant")))
    else if hasField j "media" then .ok (.media (readMedia j))
    else .ok .null
  | _ => .ok .null
termination_by sizeOf j
decreasing_by
  · have := List.sizeOf_lt_of_mem v.property
    simp only [Native.array.sizeOf_spec]
    omega
  · have := sizeOf_lt_of_mem_itemsOf e.property
    have := sizeOf_member_lt ms key
    have := sizeOf_pairOf e.val
    omega

/-! ## Paths -/

def showSegment : Segment → Native
  | .field f => .object [("kind", .text "field"), ("name", .text f)]
  | .index i => .object [("kind", .text "index"), ("index", .ofInt i)]
  | .position d => .object [("kind", .text "index"), ("index", .number d)]
  | .key k => .object [("kind", .text "key"), ("key", .text k)]

def readSegment (j : Native) : Segment :=
  if hasField j "field" then .field (textOf (field j "field"))
  else if hasField j "index" then .ofNumber (numberOf (field j "index"))
  else .key (textOf (field j "key"))

/-- A path from the list of its segments. -/
def readPath (j : Native) : Path := ⟨(itemsOf j).map readSegment⟩

end ShapeSchema.Interchange
