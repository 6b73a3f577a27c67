import ShapeSchema.Interchange.Value
import ShapeSchema.Ty.Basic

/-!
# Types as exchanged

A bare primitive type is its name; any other type is an object whose first member names its form.
The member `c` holds constraints, the member `s` the letters of the streaming flags: `n` needed, `d`
done, `s` state. What has its usual setting is left out.
-/

namespace ShapeSchema.Interchange

/-! ## Writing -/

/-- The members for an annotation. -/
def showAnn (a : Authored) : List (String × Native) :=
  let letters := (if a.flags.needed then ['n'] else []) ++ (if a.flags.done then ['d'] else [])
    ++ (if a.flags.state then ['s'] else [])
  (if a.constraints.isEmpty then [] else [("c", constraintsToNative a.constraints)])
    ++ (if letters.isEmpty then [] else [("s", Native.text (String.ofList letters))])

/-- A primitive type: its name, in an object if it is annotated. -/
def showPrim (name : String) (a : Authored) : Native :=
  match showAnn a with
  | [] => .text name
  | fields => .object (("prim", .text name) :: fields)

def showMode : Mode → Native
  | .complete => .absent
  | .partialValue => .text Mode.partialValue.text

def showLiteral : Literal → Native
  | .string s => .text s
  | .int n => .object [("int", .text (toString n))]
  | .bool b => .bool b

mutual

/-- A type as exchanged. -/
def showType : Ty Authored → Native
  | .top a => showPrim "top" a
  | .prim p a => showPrim p.text a
  | .enumRef n d a => .object ([("enum", .text n), ("dynamic", ifTrue d)] ++ showAnn a)
  | .classRef n m d a =>
    .object ([("class", .text n), ("mode", showMode m), ("dynamic", ifTrue d)] ++ showAnn a)
  | .aliasRef n m a => .object ([("alias", .text n), ("mode", showMode m)] ++ showAnn a)
  | .literal l a => .object (("lit", showLiteral l) :: showAnn a)
  | .list i a => .object (("list", showType i) :: showAnn a)
  | .map k v a => .object (("map", .array [showType k, showType v]) :: showAnn a)
  | .tuple is a => .object (("tuple", .array (showTypes is)) :: showAnn a)
  | .arrow ps r a =>
    .object ([("arrow", .array (showTypes ps)), ("returns", showType r)] ++ showAnn a)
  | .union ms null a =>
    .object ([("union", .array (showTypes ms)), ("nullType", null.elim .absent (showPrim "null"))]
      ++ showAnn a)

def showTypes : List (Ty Authored) → List Native
  | [] => []
  | t :: ts => showType t :: showTypes ts

end

/-! ## Reading -/

def readConstraint (j : Native) : Constraint where
  level := if textOf (field j "level") = Level.assert.text then .assert else .check
  label := text? (field j "label")
  expression := textOf (field j "expression")

def readConstraints (j : Native) : List Constraint := (itemsOf j).map readConstraint

def readMode (j : Native) : Mode :=
  if textOf j = Mode.partialValue.text then .partialValue else .complete

def readPrim? (s : String) : Option Prim :=
  let all : List Prim := [.string, .int, .float, .bool, .null] ++ MediaKind.all.map .media
  all.find? fun p => p.text == s

/-- The type of a bare name; an unknown name allows anything. -/
def readBare (s : String) : Ty Authored := (readPrim? s).elim (.top {}) fun p => .prim p {}

def readLiteral : Native → Literal
  | .text s => .string s
  | .bool b => .bool b
  | l => .int (readInt (field l "int"))

/-- The streaming flags that letters set. -/
def readFlagLetters (s : String) : FlagChange :=
  let on (c : Char) : Option Bool := if s.toList.contains c then some true else none
  ⟨on 'n', on 'd', on 's'⟩

/-- Annotates a type as its exchanged form says. -/
def readAnn (j : Native) (t : Ty Authored) : Ty Authored :=
  let t := t.withConstraints (readConstraints (field j "c"))
  match field j "s" with
  | .text s => t.withStreaming (readFlagLetters s)
  | _ => t

/-- A type from its exchanged form. -/
def readType (j : Native) : Ty Authored :=
  match j with
  | .object ms =>
    let j := Native.object ms
    let types (key : { k : String // k ∈ ["tuple", "union", "arrow"] }) : List (Ty Authored) :=
      (itemsOf (Native.member ms key)).attach.map fun v => readType v.val
    let name (key : String) : String := textOf (field j key)
    readAnn j (
      if hasField j "prim" then readBare (name "prim")
      else if hasField j "list" then .list (readType (Native.member ms "list")) {}
      else if hasField j "map" then
        .map (readType (pairOf (Native.member ms "map")).1)
          (readType (pairOf (Native.member ms "map")).2) {}
      else if hasField j "tuple" then .tuple (types ⟨"tuple", by simp⟩) {}
      else if hasField j "union" then .unionOf (types ⟨"union", by simp⟩) {}
      else if hasField j "optional" then (readType (Native.member ms "optional")).optional
      else if hasField j "class" then
        .classRef (name "class") (readMode (field j "mode")) (flag (field j "dynamic")) {}
      else if hasField j "enum" then .enumRef (name "enum") (flag (field j "dynamic")) {}
      else if hasField j "alias" then .aliasRef (name "alias") (readMode (field j "mode")) {}
      else if hasField j "arrow" then
        .arrow (types ⟨"arrow", by simp⟩) (readType (Native.member ms "returns")) {}
      else .literal (readLiteral (field j "lit")) {})
  | j => readBare (textOf j)
termination_by sizeOf j
decreasing_by
  · have := sizeOf_lt_of_mem_itemsOf v.property
    have := sizeOf_member_lt ms key
    omega
  · exact sizeOf_member_lt ms _
  · have := sizeOf_pairOf (Native.member ms "map")
    have := sizeOf_member_lt ms "map"
    omega
  · have := sizeOf_pairOf (Native.member ms "map")
    have := sizeOf_member_lt ms "map"
    omega
  · exact sizeOf_member_lt ms _
  · exact sizeOf_member_lt ms _

end ShapeSchema.Interchange
