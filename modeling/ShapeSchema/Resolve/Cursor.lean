import ShapeSchema.Resolve.Union

/-!
# Navigating a value

A cursor is a value with its declared type. Going to a field, an item or an entry resolves the type
first; where a union cannot be resolved the way on is ambiguous.
-/

namespace ShapeSchema

structure Cursor where
  value : Value
  type : Ty Authored
  path : Path := .root

namespace Cursor

/-- The type that governs the value. -/
def resolve (s : Schema) (c : Cursor) : Resolution := s.resolve c.value c.type

def resolvedType? (s : Schema) (c : Cursor) : Option (Ty Authored) :=
  match c.resolve s with
  | .resolved t => some t
  | .ambiguous _ => none

def isAmbiguous (s : Schema) (c : Cursor) : Bool := (c.resolvedType? s).isNone

/-- The type that governs the value, or the candidates as a fault. -/
def requireType (s : Schema) (c : Cursor) : Except Fault (Ty Authored) :=
  match c.resolve s with
  | .resolved t => .ok t
  | .ambiguous candidates => .error (.ambiguous candidates c.path)

/-- The cursor of an entry under a resolved type: a field of a class by either of its names,
otherwise a key. -/
def entryUnder (s : Schema) (c : Cursor) (t : Ty Authored) (key : String) : Option Cursor :=
  c.value.entries?.bind fun es =>
    match t with
    | .classRef name mode _ _ => do
      let d ← s.findClass? name mode
      let f ← d.findField? key
      let v ← f.name.lookup? es
      return ⟨v, f.type, c.path.field f.name.real⟩
    | .map _ value _ => (Entries.find? es key).map fun v => ⟨v, value, c.path.key key⟩
    | _ => (Entries.find? es key).map fun v => ⟨v, .top {}, c.path.key key⟩

/-- The type of an item under a resolved type. -/
def itemType (t : Ty Authored) (i : Nat) : Ty Authored :=
  match t with
  | .list item _ => item
  | .tuple types _ => types.getD i (.top {})
  | _ => .top {}

/-- The cursor of an item under a resolved type. -/
def itemUnder (c : Cursor) (t : Ty Authored) (v : Value) (i : Nat) : Cursor :=
  ⟨v, itemType t i, c.path.index i⟩

/-- The field or entry under a name, if there is one. -/
def field (s : Schema) (c : Cursor) (key : String) : Except Fault (Option Cursor) :=
  return c.entryUnder s (← c.requireType s) key

/-- The item at a position, if there is one; no item stands at a negative position. -/
def index (s : Schema) (c : Cursor) (i : Int) : Except Fault (Option Cursor) := do
  let t ← c.requireType s
  if i < 0 then return none
  return (c.value.items?.bind (·[i.toNat]?)).map fun v => c.itemUnder t v i.toNat

/-- All items of a list; of any other value none. -/
def items (s : Schema) (c : Cursor) : Except Fault (List Cursor) := do
  let t ← c.requireType s
  return ((c.value.items?.getD []).zipIdx).map fun p => c.itemUnder t p.1 p.2

/-- All entries of a map or class that have a cursor, under the keys they stand under. -/
def entries (s : Schema) (c : Cursor) : Except Fault (List (String × Cursor)) := do
  let t ← c.requireType s
  return (c.value.entries?.getD []).filterMap fun p => (c.entryUnder s t p.1).map fun d => (p.1, d)

end Cursor

end ShapeSchema
