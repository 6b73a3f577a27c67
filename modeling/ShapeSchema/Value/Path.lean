import ShapeSchema.Decimal.Shortest

/-!
# Paths into a value

A path leads from the root value to a part of it by fields, list positions and map keys. Its text
joins fields by dots and puts positions and quoted keys into brackets; the empty path is `<root>`.
-/

namespace ShapeSchema

inductive Segment where
  | field (name : String)
  | index (i : Nat)
  /-- A number that is no list index; it leads nowhere. -/
  | position (d : Double)
  | key (key : String)
deriving DecidableEq

/-- The segment of a number: a list index where it can be one, which is below `2^52`. -/
def Segment.ofNumber (d : Double) : Segment :=
  match d.toInt? with
  | some (.ofNat i) => if i < Double.exponentWeight then .index i else .position d
  | _ => .position d

/-- The segments of a path, from the root. -/
structure Path where
  segments : List Segment := []
deriving DecidableEq, Inhabited

namespace Path

def root : Path := ⟨[]⟩

def push (p : Path) (s : Segment) : Path := ⟨p.segments ++ [s]⟩

def field (p : Path) (name : String) : Path := p.push (.field name)

def index (p : Path) (i : Nat) : Path := p.push (.index i)

def key (p : Path) (k : String) : Path := p.push (.key k)

def isRoot (p : Path) : Bool := p.segments.isEmpty

/-- A key with its backslashes and quotes escaped. -/
def escapedKey (k : String) : String :=
  String.ofList (k.toList.flatMap fun c => if c = '\\' ∨ c = '"' then ['\\', c] else [c])

/-- The text so far, continued by a segment. -/
def continueText (out : String) : Segment → String
  | .field name => if out = "" then out ++ name else out ++ "." ++ name
  | .index i => out ++ "[" ++ toString i ++ "]"
  | .position d => out ++ "[" ++ d.text ++ "]"
  | .key k => out ++ "[\"" ++ escapedKey k ++ "\"]"

/-- The text of a path. -/
def text (p : Path) : String :=
  if p.isRoot then "<root>" else p.segments.foldl continueText ""

end Path

end ShapeSchema
