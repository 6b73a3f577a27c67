import ShapeSchema.Native.Basic

/-!
# Data in messages

`Native.spoken?` is the text of a value inside a message. An array is its members joined by commas,
null and absent members empty; objects, maps and sets show their kind only. An object with a member
`toString` has no text.
-/

namespace ShapeSchema.Native

mutual

/-- Text of a value inside a message. -/
def spoken? : Native → Option String
  | .null => some "null"
  | .absent => some "undefined"
  | .bool b => some (if b then "true" else "false")
  | .number d => some d.text
  | .big n => some (toString n)
  | .text s => some s
  | .array items => (spokenItems? items).map fun ts => ",".intercalate ts
  | .set _ => some "[object Set]"
  | .map _ => some "[object Map]"
  | .builtin name =>
    some ("function " ++ (if name = "constructor" then "Object" else name)
      ++ "() \x7b [native code] \x7d")
  | .object ms => if (Entries.find? ms "toString").isSome then none else some "[object Object]"

/-- Texts of an array's members. -/
def spokenItems? : List Native → Option (List String)
  | [] => some []
  | .null :: vs => (spokenItems? vs).map ("" :: ·)
  | .absent :: vs => (spokenItems? vs).map ("" :: ·)
  | v :: vs => (spoken? v).bind fun t => (spokenItems? vs).map (t :: ·)

end

end ShapeSchema.Native
