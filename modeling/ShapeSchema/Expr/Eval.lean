import ShapeSchema.Expr.Filter
import ShapeSchema.Expr.Template

/-!
# Evaluating constraint expressions

`evaluate` decides a condition on native data, which the name `this` stands for. The condition
stands in a block that writes whether it holds, and it holds if that is all that is written. The
sides of `and`, `or` and a choice that are not needed are not evaluated.
-/

namespace ShapeSchema.Expr

open Text (Units)

/-! ## Names -/

/-- What a name stands for: what a block around the place binds, else what the template binds, else
a function that is known by name. -/
def Store.resolve (s : Store) (key : Units) : Datum :=
  let name := Text.ofUnits key
  match s.frames.findSome? fun f => (f.find? key).filter (· != .absent) with
  | some d => d
  | none =>
    match s.names.find? key, Family.object.method? name, Family.free.method? name with
    | some d, _, _ => d
    | none, some m, _ => .method m
    | none, none, some m => .method m
    | none, none, none => if name = "__proto__" then .common .object else .absent

/-- Binds a name in the innermost block that binds it, else in the block around the place. -/
def bindIn (key : Units) (d : Datum) : List Members → List Members
  | [] => []
  | f :: fs =>
    let binds (f : Members) : Bool := (f.find? key).any (· != .absent)
    if binds f || !fs.any binds then f.put key d :: fs else f :: bindIn key d fs

/-- Binds a name; outside of loops the template as a whole binds it. -/
def bindName (t : Target) (d : Datum) : Run Unit :=
  modify fun s =>
    { s with
      frames := bindIn t.key d s.frames
      names := if s.frames.length = 1 then s.names.put t.key d else s.names
      locals := if t.inLoop then Entries.insert s.locals t.name d else s.locals }

/-- Runs a loop's parts with its names bound to nothing yet. -/
def inLoop (names : List String) (act : Run Unit) : Run Unit := do
  let s ← get
  let unbound := names.map fun name => (name, Datum.absent)
  set { s with frames := [] :: s.frames, locals := unbound ++ s.locals }
  act
  modify fun s => { s with frames := s.frames.tail, locals := s.locals.drop names.length }

/-- Sets a name of the innermost block. -/
def setHere (key : Units) (d : Datum) : Run Unit :=
  modify fun s =>
    match s.frames with
    | f :: fs => { s with frames := f.put key d :: fs }
    | [] => s

/-- Binds the names of a loop for one round. -/
def bindRound (names : List String) (items : List Datum) : Run Unit :=
  (names.zip items).forM fun p => do
    modify fun s => { s with locals := Entries.insert s.locals p.1 p.2 }
    setHere (Text.units p.1) p.2

/-- Keeps account of the rounds of a loop under the name `loop`. -/
def countRound (i length : Nat) : Run Unit := do
  let key := Text.units "loop"
  let entries : Members :=
    [("index", Datum.ofInt (i + 1)), ("index0", .ofInt i), ("revindex", .ofInt (length - i : Int)),
      ("revindex0", .ofInt (length - i - 1 : Int)), ("first", .bool (i == 0)),
      ("last", .bool (i + 1 == length)), ("length", .ofInt length)].map fun p =>
        (Text.units p.1, p.2)
  let s ← get
  match (s.frames.head?.bind fun f => f.find? key).filter Datum.truthy with
  | none => setHere key (← alloc (.object entries))
  | some d =>
    match d, s.cell? d with
    | .cell ref, some (.object ms) =>
      rewrite ref (.object (entries.foldl (fun ms p => ms.put p.1 p.2) ms))
    | d, _ => if d.isComposite then return else refuse "loop"

/-- What stands under the indices below the length of a datum. -/
def partsByIndex (d : Datum) : Run (List Datum) := do
  let s ← get
  let count ← match s.part d (Text.units "length") with
    | .absent => pure 0
    | x => repeatCount (← x.toNumber)
  return (List.range count).map fun i => s.part d (Text.units (toString i))

/-- The items of an array, and the characters of a text that is held as an object. -/
def Store.iterated? (s : Store) (d : Datum) : Option (List Datum) :=
  match d, s.items? d, s.text? d with
  | .text _, _, _ => none
  | _, some items, _ => some items
  | _, none, some us => some ((Text.points us).map fun n => .text (Text.unitsOfPoint n))
  | _, none, none => none

/-- What a loop with some names goes through: the items of an array or text, or with several names
the parts of each item or the members of an object. -/
def rounds (names : List String) (d : Datum) : Run (List (List Datum)) := do
  let s ← get
  if !d.truthy then return []
  else match names, s.iterated? d with
    | [_], some items => return items.map ([·])
    | [_], none => return (← partsByIndex d).map ([·])
    | names, some items =>
      items.mapM fun (e : Datum) => do
        if e.isNothing then refuse "loop"
        else return (List.range names.length).map fun i => s.part e (Text.units (toString i))
    | _, none => return (s.listed d).map fun (key, e) => [.text key, e]

/-! ## Terms -/

mutual

/-- The value of a term. -/
def Term.eval : Term → Run Datum
  | .text us => return .text us
  | .number d => return .number d
  | .bool b => return .bool b
  | .null => return .null
  | .pattern body flags => alloc (.pattern body flags)
  | .unbound => refuse "name"
  | .name key => return (← get).resolve key
  | .loopName s => return (Entries.find? (← get).locals s).getD .absent
  | .group items => do return (← evalItems items).getLastD .absent
  | .array items => do newArray (← evalItems items)
  | .dict members => do alloc (.object (.ofList (← evalMembers members)))
  | .named members => do
    let members ← evalMembers members
    alloc (.object (.ofList (members ++ [(Text.units "__keywords", .bool true)])))
  | .lookup target key => do (← target.eval).lookup (← key.eval)
  | .call target args => do
    let f ← target.eval
    let args ← evalItems args
    if (← get).isFunction f then call f surroundings args else refuse "call"
  | .direct target args => do
    let f ← target.eval
    let args ← evalItems args
    if (← get).isFunction f then call f .absent args else refuse "call"
  | .index target key => do (← target.eval).demand (← key.eval)
  | .filter name args => do
    if isFilter name then applyFilter name (← evalItems args) else throw (.unknownFilter name)
  | .choose cond body other => do
    if (← cond.eval).truthy then body.eval else other.eval
  | .isIn item whole => do return .bool (← (← item.eval).isIn (← whole.eval))
  | .test name args => do
    if isTest name then applyTest name (← evalItems args) else throw (.unknownTest name)
  | .wholePart quotient => do return .number (← (← quotient.eval).toNumber).floor
  | .power base exponent => do
    let b ← (← base.eval).toNumber
    let e ← (← exponent.eval).toNumber
    return .number (b.pow e)
  | .unary op t => do op.apply (← t.eval)
  | .binary op a b => do
    let x ← a.eval
    if op.settled x then return x else op.apply x (← b.eval)

/-- The values of terms in order. -/
def evalItems : List Term → Run (List Datum)
  | [] => return []
  | t :: ts => do return (← t.eval) :: (← evalItems ts)

/-- The values of a dictionary's members in order. -/
def evalMembers : List (Units × Term) → Run (List (Units × Datum))
  | [] => return []
  | (key, t) :: ts => do return (key, ← t.eval) :: (← evalMembers ts)

end

/-! ## Statements -/

/-- Writes a text. -/
def write (us : Units) : Run Unit := modify fun s => { s with output := s.output ++ us }

/-- Writes a datum; nothing is written for nothing. -/
def writeDatum (d : Datum) : Run Unit := do if d.isNothing then return else write (← d.say)

/-- The text that an action writes. -/
def captured (act : Run Unit) : Run Units := do
  let before := (← get).output
  modify fun s => { s with output := [] }
  act
  let us := (← get).output
  modify fun s => { s with output := before }
  return us

mutual

/-- Carries out a statement. -/
def Stmt.run : Stmt → Run Unit
  | .data us => write us
  | .place t => do writeDatum (← t.eval)
  | .branch cond body other => do
    if (← cond.eval).truthy then runAll body else runAll other
  | .loop names source body other => inLoop names do
    let items ← rounds names (← source.eval)
    items.zipIdx.forM fun p => do
      bindRound names p.1
      countRound p.2 items.length
      runAll body
    if items.isEmpty then runAll other
  | .assign targets value => do
    let d ← value.eval
    targets.forM fun t => bindName t d
  | .capture targets body => do
    let d : Datum := .text (← captured (runAll body))
    targets.forM fun t => bindName t d
  | .filtered filter args body => do
    let us ← captured (runAll body)
    writeDatum (← applyFilter filter (.text us :: (← evalItems args)))
  | .choice subject cases other => do
    let d ← subject.eval
    if !(← runCases d false cases) then runAll other

/-- Carries out statements in order. -/
def runAll : List Stmt → Run Unit
  | [] => return
  | s :: ss => do
    s.run
    runAll ss

/-- Carries out the body of the first case whose value is the subject, or if it is empty that of the
next case that has one. False if no body is carried out. -/
def runCases (subject : Datum) (found : Bool) : List (Term × List Stmt) → Run Bool
  | [] => return false
  | (t, body) :: cases => do
    let found ← if found then pure true else pure ((← t.eval).same subject)
    if found && !body.isEmpty then
      runAll body
      return true
    else runCases subject found cases

end

/-! ## Conditions -/

/-- The template that writes whether a condition holds. -/
def conditionTemplate (expression : String) : String :=
  "\x7b% if " ++ expression ++ " %\x7dtrue\x7b% else %\x7dfalse\x7b% endif %\x7d"

/-- The store that an evaluation starts from. -/
def Store.start : Store := ⟨#[], [[]], [], [], []⟩

/-- Binds the names that every condition has. The surroundings are the first cell. -/
def prepare (this : Native) : Run Unit := do
  let part : Datum := .common .object
  let _ ← alloc (.object (["env", "ctx", "blocks", "exported"].map fun s => (Text.units s, part)))
  let d ← ofNative this
  modify fun s => { s with names := [(Text.units "this", d)] }

/-- Decides a condition. -/
def evaluate (expression : String) (this : Native) : Except ExprError Bool := do
  let stmts ← readTemplate (conditionTemplate expression)
  let ((), s) ← (do prepare this; runAll stmts : Run Unit).run Store.start
  return Text.trim (Text.ofUnits s.output) == "true"

/-- The evaluator of conditions. -/
def evaluator (expression : String) (this : Native) : Except String Bool :=
  (evaluate expression this).mapError ExprError.message

end ShapeSchema.Expr
