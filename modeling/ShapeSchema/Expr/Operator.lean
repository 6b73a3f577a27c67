import ShapeSchema.Expr.Scalar
import ShapeSchema.Expr.Term

/-!
# Operators

A text joined to anything is text. Whole numbers beyond the exact range of numbers keep to
themselves in arithmetic and compare exactly. Two texts compare by their units, anything else as
quantities, and NaN compares with nothing.
-/

namespace ShapeSchema.Expr

open Text (Units)

namespace Quantity

/-- How two quantities compare, unless one is NaN. -/
def compare? : Quantity → Quantity → Option Ordering
  | number a, number b => a.compare? b
  | number a, big n => a.compareInt? n
  | big n, number b => (b.compareInt? n).map Ordering.swap
  | big m, big n => some (compare m n)

/-- Arithmetic on two operands of one kind. -/
def combine (op : BinaryOp) : Quantity → Quantity → Except ExprError Quantity
  | number a, number b =>
    .ok (.number (match op with
      | .add => a.add b
      | .sub => a.sub b
      | .mul => a.mul b
      | .div => a.div b
      | .rem => a.rem b
      | _ => .nan))
  | big m, big n =>
    match op with
    | .add => .ok (.big (m + n))
    | .sub => .ok (.big (m - n))
    | .mul => .ok (.big (m * n))
    | .div => if n = 0 then .error (.kind "division") else .ok (.big (m.tdiv n))
    | .rem => if n = 0 then .error (.kind "division") else .ok (.big (m.tmod n))
    | _ => .error (.kind "arithmetic")
  | _, _ => .error (.kind "arithmetic")

end Quantity

/-- The whole number that a text spells: nothing is zero, and a base other than ten has its mark and
no sign. -/
def bigOfText? (s : String) : Option Int :=
  let cs := Text.trimChars s.toList
  let based (base : Nat) (cs : List Char) : Option Int :=
    if cs.isEmpty || !cs.all (fun c => (Decimal.digitValue? base c).isSome) then none
    else some (Decimal.natOfDigits base cs)
  match cs with
  | [] => some 0
  | '0' :: 'x' :: ds | '0' :: 'X' :: ds => based 16 ds
  | '0' :: 'o' :: ds | '0' :: 'O' :: ds => based 8 ds
  | '0' :: 'b' :: ds | '0' :: 'B' :: ds => based 2 ds
  | cs => Decimal.readInt? (String.ofList cs)

/-! ## Scalars -/

/-- The order of two texts. -/
def compareUnits (a b : Units) : Ordering :=
  if a = b then .eq else if a < b then .lt else .gt

/-- How two scalars compare, unless one of them is no number. -/
def compareScalars? : Datum → Datum → Option Ordering
  | .text a, .text b => some (compareUnits a b)
  | .big n, .text t => (bigOfText? (Text.ofUnits t)).map (compare n)
  | .text s, .big n => (bigOfText? (Text.ofUnits s)).map fun m => compare m n
  | x, y => (Quantity.ofScalar x).compare? (Quantity.ofScalar y)

namespace Store

/-- Arithmetic; `add` joins texts if either side is one. -/
def arithmetic (s : Store) (op : BinaryOp) (a b : Datum) : Except ExprError Datum := do
  let x ← s.scalar a
  let y ← s.scalar b
  match op, x, y with
  | .add, .text us, y => return .text (us ++ (← s.say y))
  | .add, x, .text vs => return .text ((← s.say x) ++ vs)
  | op, x, y => return (← (Quantity.ofScalar x).combine op (Quantity.ofScalar y)).toDatum

/-- Equality with conversion: nothing equals nothing else, composites are equal only if they are
one, and a composite equals what the scalar that stands for it equals. -/
def looseEq (s : Store) (a b : Datum) : Except ExprError Bool :=
  if a.isNothing || b.isNothing then .ok (a.isNothing && b.isNothing)
  else if a.isComposite && b.isComposite then .ok (a.same b)
  else do return compareScalars? (← s.scalar a) (← s.scalar b) == some .eq

/-- An operator that asks for an order. -/
def relation (s : Store) (op : BinaryOp) (a b : Datum) : Except ExprError Bool := do
  let x ← s.scalar a
  let y ← s.scalar b
  return match op, compareScalars? x y with
    | .less, some o => o == .lt
    | .lessEq, some o => o != .gt
    | .greater, some o => o == .gt
    | .greaterEq, some o => o != .lt
    | _, _ => false

end Store

namespace Datum

def arithmetic (op : BinaryOp) (a b : Datum) : Run Datum := do (← get).arithmetic op a b

def relation (op : BinaryOp) (a b : Datum) : Run Bool := do (← get).relation op a b

/-- Is the remainder of a division the given number? One of large whole numbers never is. -/
def remainderIs (a b : Datum) (n : Int) : Run Bool := do
  match ← a.arithmetic .rem b with
  | .number r => return r.compareInt? n == some .eq
  | _ => return false

end Datum

/-! ## Operators of terms -/

/-- The value of a binary operator on two values. -/
def BinaryOp.apply (op : BinaryOp) (a b : Datum) : Run Datum := do
  match op with
  | .or => return if a.truthy then a else b
  | .and => return if a.truthy then b else a
  | .looseEq => return .bool (← (← get).looseEq a b)
  | .looseNe => return .bool !(← (← get).looseEq a b)
  | .strictEq => return .bool (a.same b)
  | .strictNe => return .bool !(a.same b)
  | .less | .lessEq | .greater | .greaterEq => return .bool (← a.relation op b)
  | .add | .sub | .mul | .div | .rem => a.arithmetic op b

/-- The value of a prefix operator. -/
def PrefixOp.apply (op : PrefixOp) (d : Datum) : Run Datum := do
  match op with
  | .not => return .bool !d.truthy
  | .minus =>
    match ← d.quantity with
    | .number x => return .number x.neg
    | .big n => return .big (-n)
  | .plus => return .number (← d.toNumber)

/-- Does a first operand settle the result of an operator? -/
def BinaryOp.settled (op : BinaryOp) (a : Datum) : Bool :=
  match op with
  | .or => a.truthy
  | .and => !a.truthy
  | _ => false

end ShapeSchema.Expr
