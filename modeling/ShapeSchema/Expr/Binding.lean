import ShapeSchema.Decimal.Shortest
import ShapeSchema.Expr.Grammar
import ShapeSchema.Expr.Term
import ShapeSchema.Text.Escaped

/-!
# From expressions to terms

`Node.term` settles binding strength and tells names that a loop binds from names that are looked
up. The arguments of a test have no commas between them: they stand side by side and fuse, so that
two numbers are one longer number and something in parentheses is a call of what stands before it.
-/

namespace ShapeSchema.Expr

open Text (Units)

def Comparison.binary : Comparison → BinaryOp
  | .looseEq => .looseEq
  | .looseNe => .looseNe
  | .strictEq => .strictEq
  | .strictNe => .strictNe
  | .less => .less
  | .lessEq => .lessEq
  | .greater => .greater
  | .greaterEq => .greaterEq

/-! ## Operands side by side -/

/-- The number that digits side by side are: octal behind a zero, if they can be. -/
def numeral? (cs : List Char) : Option Double :=
  let (whole, rest) := Decimal.spanDigits cs
  if whole.head? = some '0' ∧ 1 < whole.length
      ∧ whole.all (fun c => (Decimal.digitValue? 8 c).isSome) then
    if rest.isEmpty then some (.ofInt (Decimal.natOfDigits 8 whole)) else none
  else Decimal.readDecimal false cs

/-- Is an operand written as a word, or does it end in one? -/
def Term.isWord : Term → Bool
  | .bool _ | .null | .unbound => true
  | .number d => !d.isFinite
  | _ => false

/-- Does the written form of an operand begin with a word? -/
def Term.startsWithWord : Term → Bool
  | .bool _ | .null | .unbound | .name _ | .loopName _ | .named _ | .lookup _ _ | .filter _ _
  | .isIn _ _ | .test _ _ | .wholePart _ | .power _ _ => true
  | .number d => !d.isFinite
  | _ => false

/-- An operand and one right behind it, as one. -/
def fuse (a b : Term) : Option Term :=
  match a, b with
  | a, .group items => some (.direct a items)
  | a, .call target args => some (.direct a [.number .zero, .number .zero, .call target args])
  | a, .choose cond body other => some (.direct a [.choose cond body other])
  | _, .array [] => none
  | a, .array items => some (.index a (.group items))
  | a, b =>
    if a.isWord then
      match b with
      | .number _ => some .unbound
      | b => if b.startsWithWord then some .unbound else none
    else match a, b with
      | .number c, .number d =>
        if d.isFinite then (numeral? (c.text.toList ++ d.text.toList)).map .number else none
      | _, _ => none

/-- A chain and one right behind it, as one. -/
def Chain.fuse? (a b : Chain) : Option Chain :=
  match a.getLast?, b with
  | none, b => some b
  | some _, [] => some a
  | some _, .prefixed .minus :: .prefixed .minus :: _ => none
  | some _, .prefixed .plus :: .prefixed .plus :: _ => none
  | some _, .prefixed .minus :: rest => some (a ++ .binary .sub :: rest)
  | some _, .prefixed .plus :: rest => some (a ++ .binary .add :: rest)
  | some (.operand x), .operand y :: rest =>
    (fuse x y).map fun t => a.dropLast ++ .operand t :: rest
  | _, _ => none

/-! ## Names -/

/-- A term that stands for itself in a chain. -/
def single (t : Term) : Chain := [.operand t]

/-- The term of a chain that is enclosed. -/
def enclose (chain : Chain) : Read Term :=
  match chain.term? with
  | some t => .ok t
  | none => malformed

/-- What a name spells. -/
def spelled (s : String) : Read Units :=
  match Text.unescape? s.toList with
  | some us => .ok us
  | none => malformed

/-- How a literal is named in messages. -/
def Node.literalText? : Node → Option String
  | .text s => some s
  | .number d => some d.text
  | .bool b => some (if b then "true" else "false")
  | .null => some "null"
  | .pattern body flags => some (String.ofList ('/' :: body ++ '/' :: flags))
  | _ => none

/-- The name of a test. -/
def Node.testName : Node → String
  | .name s => s
  | .filter s _ => s
  | .call (.name s) _ => s
  | .call target _ => target.literalText?.getD "undefined"
  | a => a.literalText?.getD "undefined"

/-- How messages name what is called; nothing has no name. -/
def Node.calledName : Node → Read String
  | .name s => .ok s
  | .null => malformed
  | .call target _ => do return "the return value of (" ++ (← target.calledName) ++ ")"
  | .lookup target key => do
    return (← target.calledName) ++ "[\"" ++ (← key.calledName) ++ "\"]"
  | a => .ok (a.literalText?.getD "--expression--")

/-- A name as it stands in a message: with its quotes escaped it must be complete. -/
def checkCalledName (a : Node) : Read Unit := do
  let name ← a.calledName
  let _ ← spelled (String.ofList (name.toList.flatMap fun c => if c = '"' then ['\\', c] else [c]))

/-- The key of a member. -/
def Node.memberKey : Node → Read Units
  | .name s => .ok (Text.units s)
  | .text s => .ok (Text.units s)
  | _ => malformed

/-- The chain of a test. It is compared with the true value, so that only a plain yes counts. -/
def testChain (property : Node) (subject : Term) (args : List Chain) : Read Chain := do
  let name := Text.ofUnits (← spelled property.testName)
  match args.foldlM Chain.fuse? [] with
  | none => malformed
  | some chain =>
    let args ← if chain.isEmpty then pure [] else pure [← enclose chain]
    return [.operand (.test name (subject :: args)), .binary .strictEq, .operand (.bool true)]

/-! ## Terms -/

mutual

/-- The chain of an expression; `scope` holds the names that loops around it bind. -/
def Node.chain (scope : List String) : Node → Read Chain
  | .missing => malformed
  | .text s => .ok (single (.text (Text.units s)))
  | .number d => .ok (single (.number d))
  | .bool b => .ok (single (.bool b))
  | .null => .ok (single .null)
  | .pattern body flags => .ok (single (.pattern body flags))
  | .name s =>
    if scope.contains s then .ok (single (.loopName s))
    else do return single (.name (← spelled s))
  | .group items => do return single (.group (← Node.terms scope items))
  | .array items => do return single (.array (← Node.terms scope items))
  | .dict members => do return single (.dict (← Node.members scope members))
  | .named members => do return single (.named (← Node.members scope members))
  | .lookup target key => do
    return single (.lookup (← enclose (← target.chain scope)) (← enclose (← key.chain scope)))
  | .call target args => do
    let t ← enclose (← target.chain scope)
    checkCalledName target
    return single (.call t (← Node.terms scope args))
  | .filter f args => do
    return single (.filter (Text.ofUnits (← spelled f)) (← Node.terms scope args))
  | .choose body cond none => do
    return single (.choose (← enclose (← cond.chain scope)) (← enclose (← body.chain scope))
      (.text []))
  | .choose body cond (some other) => do
    return single (.choose (← enclose (← cond.chain scope)) (← enclose (← body.chain scope))
      (← enclose (← other.chain scope)))
  | .isIn item whole => do
    return single (.isIn (← enclose (← item.chain scope)) (← enclose (← whole.chain scope)))
  | .test a (.call target args) => do
    let a ← enclose (← a.chain scope)
    testChain (.call target args) a (← Node.chains scope args)
  | .test a (.filter f args) => do
    let a ← enclose (← a.chain scope)
    testChain (.filter f args) a (← Node.chains scope args)
  | .test a property => do testChain property (← enclose (← a.chain scope)) []
  | .not a => do return .prefixed .not :: (← a.chain scope)
  | .minus a => do return .prefixed .minus :: (← a.chain scope)
  | .plus a => do return .prefixed .plus :: (← a.chain scope)
  | .join op a b => do
    let x ← a.chain scope
    let y ← b.chain scope
    match op with
    | .or => return x ++ .binary .or :: y
    | .and => return x ++ .binary .and :: y
    | .concat => return x ++ [.binary .add, .operand (.text []), .binary .add] ++ y
    | .add => return x ++ .binary .add :: y
    | .sub => return x ++ .binary .sub :: y
    | .mul => return x ++ .binary .mul :: y
    | .div => return x ++ .binary .div :: y
    | .wholeDiv => return single (.wholePart (← enclose (x ++ .binary .div :: y)))
    | .rem => return x ++ .binary .rem :: y
    | .power => return single (.power (← enclose x) (← enclose y))
  | .compare first rest => do return (← first.chain scope) ++ (← Node.comparisons scope rest)

/-- The terms of expressions that stand apart. -/
def Node.terms (scope : List String) : List Node → Read (List Term)
  | [] => .ok []
  | a :: as => do return (← enclose (← a.chain scope)) :: (← Node.terms scope as)

/-- The chains of expressions. -/
def Node.chains (scope : List String) : List Node → Read (List Chain)
  | [] => .ok []
  | a :: as => do return (← a.chain scope) :: (← Node.chains scope as)

def Node.members (scope : List String) : List (Node × Node) → Read (List (Units × Term))
  | [] => .ok []
  | (key, value) :: ms => do
    return (← key.memberKey, ← enclose (← value.chain scope)) :: (← Node.members scope ms)

def Node.comparisons (scope : List String) : List (Comparison × Node) → Read Chain
  | [] => .ok []
  | (op, a) :: rest => do
    return .binary op.binary :: (← a.chain scope) ++ (← Node.comparisons scope rest)

end

/-- The term of an expression that is enclosed. -/
def Node.term (scope : List String) (a : Node) : Read Term := do enclose (← a.chain scope)

end ShapeSchema.Expr
