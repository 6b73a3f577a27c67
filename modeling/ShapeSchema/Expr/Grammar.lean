import ShapeSchema.Expr.Node

/-!
# Grammar of expressions

From loose to tight: `a if c else b`, `or`, `and`, `not`, `in` and `not in`, `is` and `is not`,
comparisons, `~`, `+`, `-`, `*`, `/`, `//`, `%`, `**`, signs, filters behind a bar, calls, members
and indices.
-/

namespace ShapeSchema.Expr

/-- An answer of the grammar. A step answers with what it has read and the tokens after it. -/
abbrev Read (α : Type) := Except ExprError α

def malformed {α : Type} : Read α := .error .syntaxError

/-- The comparison that a token is; a quoted operator counts as well. -/
def comparison? : Token → Option Comparison
  | .mark s | .text s =>
    match s with
    | "==" => some .looseEq
    | "===" => some .strictEq
    | "!=" => some .looseNe
    | "!==" => some .strictNe
    | "<" => some .less
    | ">" => some .greater
    | "<=" => some .lessEq
    | ">=" => some .greaterEq
    | _ => none
  | _ => none

/-- The operators that the grammar reads one inside the other, from loose to tight. -/
def arithmetic : List (String × Joint) :=
  [("~", .concat), ("+", .add), ("-", .sub), ("*", .mul), ("/", .div), ("//", .wholeDiv),
    ("%", .rem), ("**", .power)]

/-- A name that may go on behind points. -/
def dottedName : String → List Token → String × List Token
  | name, .mark "." :: .word more :: ts => dottedName (name ++ "." ++ more) ts
  | name, ts => (name, ts)

/-- Arguments with those by name, if any, as a last one. -/
def withNamed (args : List Node) (named : List (Node × Node)) : List Node :=
  if named.isEmpty then args else args ++ [.named named]

/-- Does a token go on with the operand before it? -/
def continuesOperand : Token → Bool
  | .opening '(' | .opening '[' | .mark "." => true
  | _ => false

mutual

/-- A whole expression. -/
def readExpr : Nat → List Token → Read (Node × List Token)
  | 0, _ => malformed
  | fuel + 1, ts => do
    let (body, ts) ← readOr fuel ts
    match ts with
    | .word "if" :: ts =>
      let (cond, ts) ← readOr fuel ts
      match ts with
      | .word "else" :: ts =>
        let (other, ts) ← readOr fuel ts
        return (.choose body cond (some other), ts)
      | ts => return (.choose body cond none, ts)
    | ts => return (body, ts)

def readOr : Nat → List Token → Read (Node × List Token)
  | 0, _ => malformed
  | fuel + 1, ts => do
    let (a, ts) ← readAnd fuel ts
    readOrOn fuel a ts

def readOrOn : Nat → Node → List Token → Read (Node × List Token)
  | 0, _, _ => malformed
  | fuel + 1, a, ts =>
    match ts with
    | .word "or" :: ts => do
      let (b, ts) ← readAnd fuel ts
      readOrOn fuel (.join .or a b) ts
    | ts => .ok (a, ts)

def readAnd : Nat → List Token → Read (Node × List Token)
  | 0, _ => malformed
  | fuel + 1, ts => do
    let (a, ts) ← readNot fuel ts
    readAndOn fuel a ts

def readAndOn : Nat → Node → List Token → Read (Node × List Token)
  | 0, _, _ => malformed
  | fuel + 1, a, ts =>
    match ts with
    | .word "and" :: ts => do
      let (b, ts) ← readNot fuel ts
      readAndOn fuel (.join .and a b) ts
    | ts => .ok (a, ts)

def readNot : Nat → List Token → Read (Node × List Token)
  | 0, _ => malformed
  | fuel + 1, ts =>
    match ts with
    | .word "not" :: ts => do
      let (a, ts) ← readNot fuel ts
      return (.not a, ts)
    | ts => do
      let (a, ts) ← readIs fuel ts
      readInOn fuel a ts

/-- Membership behind an operand; a lone `not` there is an error. -/
def readInOn : Nat → Node → List Token → Read (Node × List Token)
  | 0, _, _ => malformed
  | fuel + 1, a, ts =>
    match ts with
    | .word "in" :: ts => do
      let (b, ts) ← readIs fuel ts
      readInOn fuel (.isIn a b) ts
    | .word "not" :: .word "in" :: ts => do
      let (b, ts) ← readIs fuel ts
      readInOn fuel (.not (.isIn a b)) ts
    | .word "not" :: _ => malformed
    | ts => .ok (a, ts)

def readIs : Nat → List Token → Read (Node × List Token)
  | 0, _ => malformed
  | fuel + 1, ts => do
    let (a, ts) ← readCompare fuel ts
    match ts with
    | .word "is" :: .word "not" :: ts =>
      let (b, ts) ← readCompare fuel ts
      return (.not (.test a b), ts)
    | .word "is" :: ts =>
      let (b, ts) ← readCompare fuel ts
      return (.test a b, ts)
    | ts => return (a, ts)

def readCompare : Nat → List Token → Read (Node × List Token)
  | 0, _ => malformed
  | fuel + 1, ts => do
    let (a, ts) ← readArithmetic fuel arithmetic ts
    let (rest, ts) ← readCompareOn fuel ts
    return (if rest.isEmpty then a else .compare a rest, ts)

def readCompareOn : Nat → List Token → Read (List (Comparison × Node) × List Token)
  | 0, _ => malformed
  | fuel + 1, ts =>
    match ts with
    | [] => .ok ([], [])
    | t :: rest =>
      match comparison? t with
      | some op => do
        let (b, ts) ← readArithmetic fuel arithmetic rest
        let (more, ts) ← readCompareOn fuel ts
        return ((op, b) :: more, ts)
      | none => .ok ([], t :: rest)

/-- Operands joined by some of the arithmetic operators, the loosest of them first. -/
def readArithmetic : Nat → List (String × Joint) → List Token → Read (Node × List Token)
  | 0, _, _ => malformed
  | fuel + 1, [], ts => readUnary fuel true ts
  | fuel + 1, op :: tighter, ts => do
    let (a, ts) ← readArithmetic fuel tighter ts
    readArithmeticOn fuel op tighter a ts

def readArithmeticOn : Nat → String × Joint → List (String × Joint) → Node → List Token →
    Read (Node × List Token)
  | 0, _, _, _, _ => malformed
  | fuel + 1, op, tighter, a, ts =>
    match ts with
    | .mark s :: rest =>
      if s = op.1 then do
        let (b, ts) ← readArithmetic fuel tighter rest
        readArithmeticOn fuel op tighter (.join op.2 a b) ts
      else .ok (a, ts)
    | ts => .ok (a, ts)

/-- Signs before an operand; filters apply to the whole of it. -/
def readUnary : Nat → Bool → List Token → Read (Node × List Token)
  | 0, _, _ => malformed
  | fuel + 1, filters, ts => do
    let (a, ts) ← match ts with
      | .mark "-" :: ts => do
        let (a, ts) ← readUnary fuel false ts
        pure (Node.minus a, ts)
      | .mark "+" :: ts => do
        let (a, ts) ← readUnary fuel false ts
        pure (Node.plus a, ts)
      | ts => readPrimary fuel ts
    if filters then readFilters fuel a ts else return (a, ts)

/-- Filters behind an operand. Of the calls behind a filter's name the last one holds its arguments.
-/
def readFilters : Nat → Node → List Token → Read (Node × List Token)
  | 0, _, _ => malformed
  | fuel + 1, a, ts =>
    match ts with
    | .mark "|" :: .word name :: ts => do
      let (name, ts) := dottedName name ts
      let (args, ts) ← readFilterArgs fuel a ts
      readFilters fuel (.filter name (a :: args)) ts
    | .mark "|" :: _ => malformed
    | ts => .ok (a, ts)

def readFilterArgs : Nat → Node → List Token → Read (List Node × List Token)
  | 0, _, _ => malformed
  | fuel + 1, a, ts =>
    match ts with
    | .opening '(' :: _ => do
      match ← readPostfix fuel a ts with
      | (.call _ args, ts) => return (args, ts)
      | _ => malformed
    | ts => .ok ([], ts)

/-- A literal, a name or something in brackets, with what stands behind it. -/
def readPrimary : Nat → List Token → Read (Node × List Token)
  | 0, _ => malformed
  | fuel + 1, ts =>
    match ts with
    | .text s :: ts => readPostfix fuel (.text s) ts
    | .number d :: ts => readPostfix fuel (.number d) ts
    | .bool b :: ts => readPostfix fuel (.bool b) ts
    | .none :: ts => readPostfix fuel .null ts
    | .pattern body flags :: ts => readPostfix fuel (.pattern body flags) ts
    | .word w :: ts => readPostfix fuel (.name w) ts
    | .opening '(' :: ts => do
      let (items, ts) ← readItems fuel true ts
      readPostfix fuel (.group items) ts
    | .opening '[' :: ts => do
      let (items, ts) ← readItems fuel true ts
      readPostfix fuel (.array items) ts
    | .opening _ :: ts => do
      let (members, ts) ← readMembers fuel true ts
      readPostfix fuel (.dict members) ts
    | _ :: ts => if ts.head?.any continuesOperand then readPostfix fuel .missing ts else malformed
    | [] => malformed

/-- Calls, indices and members behind an operand. -/
def readPostfix : Nat → Node → List Token → Read (Node × List Token)
  | 0, _, _ => malformed
  | fuel + 1, t, ts =>
    match ts with
    | .opening '(' :: ts => do
      let (args, ts) ← readArgs fuel ts
      readPostfix fuel (.call t args) ts
    | .opening '[' :: ts => do
      let (items, ts) ← readItems fuel true ts
      match items with
      | [key] => readPostfix fuel (.lookup t key) ts
      | _ => malformed
    | .mark "." :: .word w :: ts => readPostfix fuel (.lookup t (.text w)) ts
    | .mark "." :: _ => malformed
    | ts => .ok (t, ts)

/-- Items up to a closing bracket of any kind; none but the first needs a comma before it. -/
def readItems : Nat → Bool → List Token → Read (List Node × List Token)
  | 0, _, _ => malformed
  | fuel + 1, first, ts =>
    match ts with
    | .closing _ :: ts => .ok ([], ts)
    | .mark "," :: rest => if first then malformed else readItem fuel rest
    | ts => if first then readItem fuel ts else malformed

def readItem : Nat → List Token → Read (List Node × List Token)
  | 0, _ => malformed
  | fuel + 1, ts => do
    let (a, ts) ← readExpr fuel ts
    let (items, ts) ← readItems fuel false ts
    return (a :: items, ts)

/-- Arguments up to a closing parenthesis, those by name last. -/
def readArgs : Nat → List Token → Read (List Node × List Token)
  | 0, _ => malformed
  | fuel + 1, ts =>
    match ts with
    | .closing ')' :: ts => .ok ([], ts)
    | ts => do
      let (args, named, ts) ← readArg fuel ts
      return (withNamed args named, ts)

def readArg : Nat → List Token → Read (List Node × List (Node × Node) × List Token)
  | 0, _ => malformed
  | fuel + 1, ts => do
    let (a, ts) ← readExpr fuel ts
    let (args, named, ts) ← match ts with
      | .mark "=" :: ts => do
        let (b, ts) ← readExpr fuel ts
        pure (([] : List Node), [(a, b)], ts)
      | ts => pure ([a], [], ts)
    match ts with
    | .closing ')' :: ts => return (args, named, ts)
    | .mark "," :: ts =>
      let (moreArgs, moreNamed, ts) ← readArg fuel ts
      return (args ++ moreArgs, named ++ moreNamed, ts)
    | _ => malformed

/-- Members of a dictionary up to a closing bracket. -/
def readMembers : Nat → Bool → List Token → Read (List (Node × Node) × List Token)
  | 0, _, _ => malformed
  | fuel + 1, first, ts =>
    match ts with
    | .closing _ :: ts => .ok ([], ts)
    | .mark "," :: rest => if first then malformed else readMember fuel rest
    | ts => if first then readMember fuel ts else malformed

def readMember : Nat → List Token → Read (List (Node × Node) × List Token)
  | 0, _ => malformed
  | fuel + 1, ts => do
    let (key, ts) ← readPrimary fuel ts
    match ts with
    | .mark ":" :: ts =>
      let (value, ts) ← readExpr fuel ts
      let (members, ts) ← readMembers fuel false ts
      return ((key, value) :: members, ts)
    | _ => malformed

end

/-- Steps of the grammar that the tokens ahead can need. -/
def stepsFor (ts : List Token) : Nat := 24 * (ts.length + 2)

/-- The expression at the start of some tokens. -/
def readExpression (ts : List Token) : Read (Node × List Token) := readExpr (stepsFor ts) ts

/-- The operand at the start of some tokens, without operators and filters. -/
def readOperand (ts : List Token) : Read (Node × List Token) := readPrimary (stepsFor ts) ts

end ShapeSchema.Expr
