import ShapeSchema.Native.Parts

/-!
# Fields of exchanged data

What is exchanged with other programs is plain data of the JSON kind. The readers here take a part
of it in the form that is asked for, or nothing where the data has another form.
-/

namespace ShapeSchema.Interchange

/-- The members of an object; any other data has none. -/
def fieldsOf (j : Native) : List (String × Native) := j.members?.getD []

/-- A member, absent if there is none. -/
def field (j : Native) (key : String) : Native := Native.member (fieldsOf j) key

def hasField (j : Native) (key : String) : Bool := (Entries.find? (fieldsOf j) key).isSome

/-- The items of an array; any other data has none. -/
def itemsOf : Native → List Native
  | .array vs => vs
  | _ => []

/-- The two items of a pair. -/
def pairOf : Native → Native × Native
  | .array [a, b] => (a, b)
  | _ => (.absent, .absent)

def text? : Native → Option String
  | .text s => some s
  | _ => none

/-- A text; any other data counts as the empty one. -/
def textOf (j : Native) : String := (text? j).getD ""

def flag? : Native → Option Bool
  | .bool b => some b
  | _ => none

/-- A truth value; any other data counts as false. -/
def flag (j : Native) : Bool := (flag? j).getD false

/-- Data that is there. -/
def given? : Native → Option Native
  | .absent => none
  | v => some v

/-- A number; any other data counts as zero. -/
def numberOf : Native → Double
  | .number d => d
  | _ => .zero

/-- The least whole number that is not below a number; any other data counts as zero. -/
def ceilingOf (j : Native) : Int := (numberOf j).ceil.toInt?.getD 0

/-- A text as data, absent if there is none. -/
def optText (t : Option String) : Native := t.elim .absent .text

def texts (ts : List String) : Native := .array (ts.map .text)

/-- The member `true` of what holds; what does not is left out. -/
def ifTrue (b : Bool) : Native := if b then .bool true else .absent

/-! ## Sizes -/

theorem one_le_sizeOf (v : Native) : 1 ≤ sizeOf v := by
  cases v <;> simp only [Native.null.sizeOf_spec, Native.absent.sizeOf_spec,
    Native.bool.sizeOf_spec, Native.number.sizeOf_spec, Native.big.sizeOf_spec,
    Native.text.sizeOf_spec, Native.array.sizeOf_spec, Native.set.sizeOf_spec,
    Native.map.sizeOf_spec, Native.object.sizeOf_spec, Native.builtin.sizeOf_spec] <;> omega

theorem sizeOf_member_lt (ms : List (String × Native)) (key : String) :
    sizeOf (Native.member ms key) < sizeOf (Native.object ms) := Native.sizeOf_member rfl key

theorem sizeOf_lt_of_mem_itemsOf {v x : Native} (h : x ∈ itemsOf v) : sizeOf x < sizeOf v := by
  cases v with
  | array vs =>
    have : sizeOf x < sizeOf vs := List.sizeOf_lt_of_mem h
    simp only [Native.array.sizeOf_spec]
    omega
  | _ => simp [itemsOf] at h

theorem sizeOf_pairOf (v : Native) :
    sizeOf (pairOf v).1 ≤ sizeOf v ∧ sizeOf (pairOf v).2 ≤ sizeOf v := by
  unfold pairOf
  split
  · simp only [Native.array.sizeOf_spec, List.cons.sizeOf_spec, List.nil.sizeOf_spec]
    omega
  · have := one_le_sizeOf v
    simp only [Native.absent.sizeOf_spec]
    omega

end ShapeSchema.Interchange
