import ShapeSchema.Interchange.Fields
import ShapeSchema.Decimal.Hex

/-!
# Native data as exchanged

Scalars and arrays stand for themselves. What JSON has no form for is an object with one member that
names the form: `f64` for a number that is not a whole number of the exact range, `big`, `set`,
`map`, `obj` and `undef`.
-/

namespace ShapeSchema.Interchange

/-- A number of the exact range as itself, any other by its bits. -/
def showDouble (d : Double) : Native :=
  match d.toInt? with
  | some n =>
    if n.natAbs ≤ 0x1FFFFFFFFFFFFF ∧ d.same (.ofInt n) ∧ (!d.isZero || !d.negative) then .ofInt n
    else .object [("f64", .text d.hex)]
  | none => .object [("f64", .text d.hex)]

mutual

/-- Data as exchanged. -/
def showData : Native → Native
  | .null => .null
  | .absent => .object [("undef", .bool true)]
  | .bool b => .bool b
  | .number d => showDouble d
  | .big n => .object [("big", .text (toString n))]
  | .text s => .text s
  | .array vs => .array (showItems vs)
  | .set vs => .object [("set", .array (showItems vs))]
  | .map es => .object [("map", .array (showPairs es))]
  | .builtin _ => .absent
  | .object ms => .object [("obj", .array (showMembers ms))]

def showItems : List Native → List Native
  | [] => []
  | v :: vs => showData v :: showItems vs

def showPairs : List (Native × Native) → List Native
  | [] => []
  | (k, v) :: es => .array [showData k, showData v] :: showPairs es

def showMembers : List (String × Native) → List Native
  | [] => []
  | (k, v) :: ms => .array [.text k, showData v] :: showMembers ms

end

/-- Data from its exchanged form. -/
def readData (j : Native) : Native :=
  match j with
  | .array vs => .array (vs.attach.map fun v => readData v.val)
  | .object [("f64", .text s)] => .number (.ofHex s)
  | .object [("big", .text s)] => .big ((Decimal.readInt? s).getD 0)
  | .object [("set", .array vs)] => .ofItems (vs.attach.map fun v => readData v.val)
  | .object [("map", .array es)] =>
    .ofEntries (es.attach.map fun e => (readData (pairOf e.val).1, readData (pairOf e.val).2))
  | .object [("obj", .array es)] =>
    .record (es.attach.map fun e => (textOf (pairOf e.val).1, readData (pairOf e.val).2))
  | .object [("undef", _)] => .absent
  | v => v
termination_by sizeOf j
decreasing_by
  · have := List.sizeOf_lt_of_mem v.property
    simp only [Native.array.sizeOf_spec]
    omega
  · have := List.sizeOf_lt_of_mem v.property
    simp only [Native.object.sizeOf_spec, List.cons.sizeOf_spec, Prod.mk.sizeOf_spec,
      Native.array.sizeOf_spec]
    omega
  · have := List.sizeOf_lt_of_mem e.property
    have := sizeOf_pairOf e.val
    simp only [Native.object.sizeOf_spec, List.cons.sizeOf_spec, Prod.mk.sizeOf_spec,
      Native.array.sizeOf_spec]
    omega
  · have := List.sizeOf_lt_of_mem e.property
    have := sizeOf_pairOf e.val
    simp only [Native.object.sizeOf_spec, List.cons.sizeOf_spec, Prod.mk.sizeOf_spec,
      Native.array.sizeOf_spec]
    omega
  · have := List.sizeOf_lt_of_mem e.property
    have := sizeOf_pairOf e.val
    simp only [Native.object.sizeOf_spec, List.cons.sizeOf_spec, Prod.mk.sizeOf_spec,
      Native.array.sizeOf_spec]
    omega

end ShapeSchema.Interchange
