import ShapeSchema.Value.Basic

/-!
# Plain view of a value

The plain data on which constraint expressions are evaluated: whole numbers of the exact range of
the number type become numbers, enum values their variant, maps and classes plain objects.
-/

namespace ShapeSchema

/-- Greatest whole number up to which the number type is exact. -/
def exactIntMax : Int := 0x1FFFFFFFFFFFFF

/-- A whole number as plain data. -/
def Native.ofWhole (n : Int) : Native :=
  if -exactIntMax ≤ n ∧ n ≤ exactIntMax then .ofInt n else .big n

/-- A media value as plain data. -/
def Media.plain (m : Media) : Native :=
  let content : List (String × Native) := match m.content with
    | .url url => [("kind", .text "url"), ("url", .text url)]
    | .base64 data mime =>
      [("kind", .text "base64"), ("base64", .text data)]
        ++ (mime.map fun t => ("mimeType", Native.text t)).toList
    | .file path => [("kind", .text "file"), ("path", .text path)]
  .record (("media_type", .text m.kind.text) :: content)

namespace Value

mutual

/-- The plain view. -/
def plain : Value → Native
  | .null => .null
  | .bool b => .bool b
  | .int n => .ofWhole n
  | .float d => .number d
  | .text s => .text s
  | .list items => .array (plainItems items)
  | .map es => .record (plainEntries es)
  | .classOf _ fs => .record (plainEntries fs)
  | .enumOf _ variant => .text variant
  | .media m => m.plain

def plainItems : List Value → List Native
  | [] => []
  | v :: vs => plain v :: plainItems vs

def plainEntries : List (String × Value) → List (String × Native)
  | [] => []
  | (k, v) :: es => (k, plain v) :: plainEntries es

end

end Value

end ShapeSchema
