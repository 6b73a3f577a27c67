import ShapeSchema.Expr.Token

/-!
# Expressions as written

What the grammar reads, before binding strength is settled: a comparison is one node for all its
operators, and the arguments of a test are still part of the node behind `is`.
-/

namespace ShapeSchema.Expr

/-- An operator that compares. -/
inductive Comparison where
  | looseEq | looseNe | strictEq | strictNe | less | lessEq | greater | greaterEq
deriving DecidableEq

/-- An operator that joins two expressions. -/
inductive Joint where
  | or | and
  | concat
  | add | sub | mul | div | wholeDiv | rem | power
deriving DecidableEq

inductive Node where
  /-- Nothing where an operand was expected; only what stands behind it may count. -/
  | missing
  | text (s : String)
  | number (d : Double)
  | bool (b : Bool)
  | null
  | pattern (body flags : List Char)
  | name (s : String)
  | group (items : List Node)
  | array (items : List Node)
  | dict (members : List (Node × Node))
  /-- Arguments that are given by name, as one last argument. -/
  | named (members : List (Node × Node))
  | lookup (target key : Node)
  | call (target : Node) (args : List Node)
  | filter (name : String) (args : List Node)
  | choose (body cond : Node) (other : Option Node)
  | isIn (item whole : Node)
  | test (subject property : Node)
  | not (a : Node)
  | minus (a : Node)
  | plus (a : Node)
  | join (op : Joint) (a b : Node)
  | compare (first : Node) (rest : List (Comparison × Node))
deriving Inhabited

end ShapeSchema.Expr
