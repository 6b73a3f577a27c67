import ShapeSchema.Expr.Binding

/-!
# Templates

A template is a list of statements: data that is written as it is, places that write the value of a
term, and blocks that branch, loop, bind names, or write what their bodies yield by way of a filter.
A loop binds its names in its body and in the part that stands for an empty loop.
-/

namespace ShapeSchema.Expr

open Text (Units)

/-- A name to bind; `inLoop` tells that a loop around the statement binds it already. -/
structure Target where
  name : String
  key : Units
  inLoop : Bool

inductive Stmt where
  | data (s : Units)
  | place (t : Term)
  | branch (cond : Term) (body other : List Stmt)
  | loop (names : List String) (source : Term) (body other : List Stmt)
  | assign (targets : List Target) (value : Term)
  /-- Binds names to the text that a body writes. -/
  | capture (targets : List Target) (body : List Stmt)
  | filtered (filter : String) (args : List Term) (body : List Stmt)
  /-- The body of the first case that equals the subject, and of those behind it up to one that has
  a body. -/
  | choice (subject : Term) (cases : List (Term × List Stmt)) (other : List Stmt)
deriving Inhabited

/-- The tokens behind the end of a block. -/
def afterBlockEnd : List Token → Read (List Token)
  | .blockEnd _ :: ts => .ok ts
  | _ => malformed

/-- The tokens behind the end of a block whose name stands here. -/
def afterClosing : List Token → Read (List Token)
  | .word _ :: ts => afterBlockEnd ts
  | _ => malformed

/-- A term and the tokens behind it. -/
def readTerm (scope : List String) (ts : List Token) : Read (Term × List Token) := do
  let (a, ts) ← readExpression ts
  return (← a.term scope, ts)

/-- A name to bind. -/
def target (scope : List String) : Node → Read Target
  | .name s | .text s => do return ⟨s, ← spelled s, scope.contains s⟩
  | _ => malformed

/-- Names to bind, with commas between them. -/
def readTargets (scope : List String) : Nat → List Token → Read (List Target × List Token)
  | 0, _ => malformed
  | fuel + 1, ts => do
    let (a, ts) ← readOperand ts
    let t ← target scope a
    match ts with
    | .mark "," :: ts =>
      let (more, ts) ← readTargets scope fuel ts
      return (t :: more, ts)
    | ts => return ([t], ts)

/-- The names of a loop, with commas between them. -/
def readLoopNames : Nat → List Token → Read (List String × List Token)
  | 0, _ => malformed
  | fuel + 1, ts => do
    match ← readOperand ts with
    | (.name s, .mark "," :: ts) =>
      let (more, ts) ← readLoopNames fuel ts
      return (s :: more, ts)
    | (.name s, ts) => return ([s], ts)
    | _ => malformed

/-- The filter of a block with its further arguments. -/
def readBlockFilter (scope : List String) (ts : List Token) :
    Read (String × List Term × List Token) :=
  match ts with
  | .word s :: ts => do
    let (s, ts) := dottedName s ts
    let (args, ts) ← readFilterArgs (stepsFor ts) (.name s) ts
    return (Text.ofUnits (← spelled s), ← Node.terms scope args, ts)
  | _ => malformed

mutual

/-- Statements up to a block of one of the given names, or up to the end; the tokens ahead start
with that name. -/
def readStmts : Nat → List String → List String → List Token → Read (List Stmt × List Token)
  | 0, _, _, _ => malformed
  | _ + 1, _, _, [] => .ok ([], [])
  | fuel + 1, scope, stops, .data cs :: ts => do
    let (rest, ts) ← readStmts fuel scope stops ts
    return (.data (Text.units (String.ofList cs)) :: rest, ts)
  | fuel + 1, scope, stops, .comment _ _ :: ts => readStmts fuel scope stops ts
  | fuel + 1, scope, stops, .placeStart _ :: ts => do
    match ← readTerm scope ts with
    | (t, .placeEnd _ :: ts) =>
      let (rest, ts) ← readStmts fuel scope stops ts
      return (.place t :: rest, ts)
    | _ => malformed
  | fuel + 1, scope, stops, .blockStart _ :: .word s :: ts =>
    if stops.contains s then .ok ([], .word s :: ts)
    else do
      let (stmt, ts) ← readBlock fuel scope s ts
      let (rest, ts) ← readStmts fuel scope stops ts
      return (stmt :: rest, ts)
  | _ + 1, _, _, _ => malformed

/-- The block of a name; the tokens are those behind the name. -/
def readBlock : Nat → List String → String → List Token → Read (Stmt × List Token)
  | 0, _, _, _ => malformed
  | fuel + 1, scope, s, ts =>
    match s with
    | "if" => readIf fuel scope ts
    | "for" => readFor fuel scope ts
    | "set" => readSet fuel scope ts
    | "filter" => do
      let (filter, args, ts) ← readBlockFilter scope ts
      let (body, ts) ← readStmts fuel scope ["endfilter"] (← afterBlockEnd ts)
      return (.filtered filter args body, ← afterClosing ts)
    | "switch" => do
      let (subject, ts) ← readTerm scope ts
      let (_, ts) ← readStmts fuel scope ["case", "default", "endswitch"] (← afterBlockEnd ts)
      let (cases, ts) ← readCases fuel scope ts
      match ts with
      | .word "default" :: ts =>
        let (other, ts) ← readStmts fuel scope ["endswitch"] (← afterBlockEnd ts)
        return (.choice subject cases other, ← afterClosing ts)
      | ts => return (.choice subject cases [], ← afterClosing ts)
    | _ =>
      match ts with
      | .blockEnd _ :: .verbatim cs :: ts => .ok (.data (Text.units (String.ofList cs)), ts)
      | _ => malformed

/-- A branch behind its name. -/
def readIf : Nat → List String → List Token → Read (Stmt × List Token)
  | 0, _, _ => malformed
  | fuel + 1, scope, ts => do
    let (cond, ts) ← readTerm scope ts
    let (body, ts) ← readStmts fuel scope ["elif", "elseif", "else", "endif"] (← afterBlockEnd ts)
    match ts with
    | .word "else" :: ts =>
      let (other, ts) ← readStmts fuel scope ["endif"] (← afterBlockEnd ts)
      return (.branch cond body other, ← afterClosing ts)
    | .word "endif" :: ts => return (.branch cond body [], ← afterBlockEnd ts)
    | .word _ :: ts =>
      let (other, ts) ← readIf fuel scope ts
      return (.branch cond body [other], ts)
    | _ => malformed

/-- A loop behind its name. -/
def readFor : Nat → List String → List Token → Read (Stmt × List Token)
  | 0, _, _ => malformed
  | fuel + 1, scope, ts => do
    match ← readLoopNames (ts.length + 1) ts with
    | (names, .word "in" :: ts) =>
      let (source, ts) ← readTerm scope ts
      let inner := names ++ scope
      let (body, ts) ← readStmts fuel inner ["endfor", "else"] (← afterBlockEnd ts)
      match ts with
      | .word "else" :: ts =>
        let (other, ts) ← readStmts fuel inner ["endfor"] (← afterBlockEnd ts)
        return (.loop names source body other, ← afterClosing ts)
      | ts => return (.loop names source body [], ← afterClosing ts)
    | _ => malformed

/-- A binding behind its name. -/
def readSet : Nat → List String → List Token → Read (Stmt × List Token)
  | 0, _, _ => malformed
  | fuel + 1, scope, ts => do
    match ← readTargets scope (ts.length + 1) ts with
    | (targets, .mark "=" :: ts) =>
      let (value, ts) ← readTerm scope ts
      return (.assign targets value, ← afterBlockEnd ts)
    | (targets, .blockEnd _ :: ts) =>
      let (body, ts) ← readStmts fuel scope ["endset"] ts
      return (.capture targets body, ← afterClosing ts)
    | _ => malformed

/-- The cases of a choice; there is at least one, and the word before the first may be missing. -/
def readCases : Nat → List String → List Token → Read (List (Term × List Stmt) × List Token)
  | 0, _, _ => malformed
  | fuel + 1, scope, ts => do
    let ts := match ts with
      | .word "case" :: ts => ts
      | ts => ts
    let (cond, ts) ← readTerm scope ts
    let (body, ts) ← readStmts fuel scope ["case", "default", "endswitch"] (← afterBlockEnd ts)
    match ts with
    | .word "case" :: ts =>
      let (more, ts) ← readCases fuel scope (.word "case" :: ts)
      return ((cond, body) :: more, ts)
    | .word s :: ts => return ([(cond, body)], .word s :: ts)
    | _ => malformed

end

/-- The statements of a whole template. -/
def readTemplate (template : String) : Read (List Stmt) := do
  let ts ← tokens template
  match ← readStmts (2 * ts.length + 2) [] [] ts with
  | (stmts, []) => return stmts
  | _ => malformed

end ShapeSchema.Expr
