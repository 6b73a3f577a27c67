import ShapeSchema.Expr.Token
import ShapeSchema.Text.Units

/-!
# Terms of expressions

An expression becomes a chain of operands and operators in the order in which they are written.
Parentheses that are not written are not implied: a chain becomes a term by the binding strength of
its operators alone, which need not be the order in which the grammar read them. So `not a == b`
compares the negation of `a` with `b`.
-/

namespace ShapeSchema.Expr

open Text (Units)

inductive PrefixOp where
  | not | minus | plus
deriving DecidableEq

inductive BinaryOp where
  | or | and
  | looseEq | looseNe | strictEq | strictNe
  | less | lessEq | greater | greaterEq
  | add | sub
  | mul | div | rem
deriving DecidableEq

/-- Binding strength; operators of one strength group to the left. -/
def BinaryOp.strength : BinaryOp → Nat
  | .or => 1
  | .and => 2
  | .looseEq | .looseNe | .strictEq | .strictNe => 3
  | .less | .lessEq | .greater | .greaterEq => 4
  | .add | .sub => 5
  | .mul | .div | .rem => 6

inductive Term where
  | text (s : Units)
  | number (d : Double)
  | bool (b : Bool)
  | null
  | pattern (body flags : List Char)
  /-- A word that names nothing; asking for its value is an error. -/
  | unbound
  /-- A name that is looked up where the term is evaluated. -/
  | name (key : Units)
  /-- A name that a loop around the term binds. -/
  | loopName (s : String)
  /-- Terms in parentheses; the last one counts. -/
  | group (items : List Term)
  | array (items : List Term)
  | dict (members : List (Units × Term))
  /-- Arguments that are given by name, as one last argument. -/
  | named (members : List (Units × Term))
  | lookup (target key : Term)
  | call (target : Term) (args : List Term)
  /-- A call of a value that is not looked up first. -/
  | direct (target : Term) (args : List Term)
  /-- The part under a key, without a receiver bound to it. -/
  | index (target key : Term)
  | filter (name : String) (args : List Term)
  | choose (cond body other : Term)
  | isIn (item whole : Term)
  | test (name : String) (args : List Term)
  /-- The whole part of a quotient. -/
  | wholePart (quotient : Term)
  | power (base exponent : Term)
  | unary (op : PrefixOp) (t : Term)
  | binary (op : BinaryOp) (a b : Term)
deriving Inhabited

/-- One place of a chain. -/
inductive Piece where
  | operand (t : Term)
  | prefixed (op : PrefixOp)
  | binary (op : BinaryOp)

abbrev Chain := List Piece

mutual

/-- The operand at the start of a chain with its prefix operators. Two equal signs in a row are no
operator, and parentheses around nothing are no operand. -/
def groupOperand : Nat → Chain → Option (Term × Chain)
  | 0, _ => none
  | _ + 1, .operand (.group []) :: _ => none
  | _ + 1, .operand t :: rest => some (t, rest)
  | fuel + 1, .prefixed op :: rest =>
    match op, rest with
    | .minus, .prefixed .minus :: _ => none
    | .plus, .prefixed .plus :: _ => none
    | op, rest => (groupOperand fuel rest).map fun p => (.unary op p.1, p.2)
  | _ + 1, _ => none

/-- The term at the start of a chain whose operators bind at least as strongly as given. -/
def groupFrom : Nat → Nat → Chain → Option (Term × Chain)
  | 0, _, _ => none
  | fuel + 1, least, chain => (groupOperand fuel chain).bind fun p => groupOn fuel least p.1 p.2

/-- Extends a term by the operators that follow and bind at least as strongly as given. -/
def groupOn : Nat → Nat → Term → Chain → Option (Term × Chain)
  | 0, _, _, _ => none
  | fuel + 1, least, t, .binary op :: rest =>
    if least ≤ op.strength then
      (groupFrom fuel (op.strength + 1) rest).bind fun p =>
        groupOn fuel least (.binary op t p.1) p.2
    else some (t, .binary op :: rest)
  | _ + 1, _, t, rest => some (t, rest)

end

/-- The term of a whole chain. -/
def Chain.term? (chain : Chain) : Option Term :=
  match groupFrom (3 * chain.length + 3) 0 chain with
  | some (t, []) => some t
  | _ => none

end ShapeSchema.Expr
