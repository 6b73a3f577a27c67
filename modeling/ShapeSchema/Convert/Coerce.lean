import ShapeSchema.Convert.Constraint
import ShapeSchema.Schema.Registry
import ShapeSchema.Value.Parts
import ShapeSchema.Value.Path

/-!
# Coercing values to types

`Coercer.coerce` checks a dynamic value against a type and brings it into the type's form: class
values take the class's name and its fields in order, texts become enum values, whole numbers become
floats where the type asks for them. Constraints are evaluated on the way out of each node.

Aliases are expanded without going further into the value, so each may be expanded only once until a
part of the value is entered: `pending` holds those that still may. A type whose aliases lead back
to themselves in any other way is endless.
-/

-- the equations that a match names are used by the termination proofs alone
set_option linter.unusedVariables false

namespace ShapeSchema

theorem Name.mem_of_lookup? {α : Type} {n : Name} {es : List (String × α)} {x : α}
    (h : n.lookup? es = some x) : ∃ k, (k, x) ∈ es := by
  unfold Name.lookup? at h
  rcases Option.or_eq_some_iff.1 h with h | ⟨_, h⟩
  · exact Entries.mem_of_find? h
  · obtain ⟨_, _, h⟩ := Option.bind_eq_some_iff.1 h
    exact Entries.mem_of_find? h

theorem length_erase_lt {name : String} {pending : List String} (h : name ∈ pending) :
    (pending.erase name).length < pending.length := by
  have := List.length_erase_of_mem h
  have := List.length_pos_of_mem h
  omega

namespace Schema

/-- Does a type accept null? `pending` holds the aliases that may still be expanded. -/
def acceptsNullAmong (s : Schema) (pending : List String) (t : Ty Authored) : Bool :=
  match t with
  | .top _ => true
  | .prim p _ => p == .null
  | .union ms null _ => null.isSome || ms.attach.any fun m => acceptsNullAmong s pending m.val
  | .aliasRef name _ _ =>
    match s.expand? name with
    | none => false
    | some e => if h : name ∈ pending then acceptsNullAmong s (pending.erase name) e else false
  | _ => false
termination_by (pending.length, sizeOf t)
decreasing_by
  · have := List.sizeOf_lt_of_mem m.property
    apply Prod.Lex.right
    simp only [Ty.union.sizeOf_spec]
    omega
  · exact Prod.Lex.left _ _ (length_erase_lt h)

/-- Does a type accept null? -/
def acceptsNull (s : Schema) (t : Ty Authored) : Bool := s.acceptsNullAmong s.aliasNames t

end Schema

/-- A schema's definitions with an evaluator of constraints and a sink for events. -/
structure Coercer where
  schema : Schema
  eval : Evaluator
  sink : Sink := .quiet

/-- Does a value agree with a literal? An enum value agrees by its variant. -/
def Literal.matches (l : Literal) (v : Value) : Bool :=
  match l, v with
  | .string s, .text t => t == s
  | .string s, .enumOf _ variant => variant == s
  | .int n, .int m => m == n
  | .bool b, .bool c => c == b
  | _, _ => false

namespace Coercer

/-- A value does not fit a type at a path. -/
def misfit {α : Type} (path : Path) (expected : String) (v : Value) (m : Mismatch) : Checked α :=
  .fail (.convert ⟨path, expected, v.describe, m⟩)

def wrongKind {α : Type} (t : Ty Authored) (v : Value) (path : Path) : Checked α :=
  misfit path t.display v .wrongKind

/-- A promise about the schema is broken at a path. -/
def broken {α : Type} (b : Breach) (path : Path) : Checked α := .fail (.violation ⟨b, path⟩)

/-- A value of a primitive type; `t` is that type. -/
def coercePrim (p : Prim) (t : Ty Authored) (v : Value) (path : Path) : Checked Value :=
  match p, v with
  | .string, .text s => pure (.text s)
  | .int, .int n => pure (.int n)
  | .float, .float d => pure (.float d)
  | .float, .int n => do
    .flag ⟨.intToFloat, path.text, none⟩
    return .float (.ofInt n)
  | .bool, .bool b => pure (.bool b)
  | .null, .null => pure .null
  | .media kind, .media m => if m.kind = kind then pure (.media m) else wrongKind t (.media m) path
  | _, v => wrongKind t v path

/-- A value of an enum; `t` is the reference to it. -/
def coerceEnum (c : Coercer) (name : String) (t : Ty Authored) (v : Value) (path : Path) :
    Checked Value :=
  match c.schema.findEnum? name with
  | none => broken (.unknownEnum name) path
  | some e =>
    match v.variantName? with
    | none => wrongKind t v path
    | some key =>
      match e.findValue? key with
      | none => misfit path name v .unknownVariant
      | some x => do
        if let .text _ := v then .flag ⟨.stringToEnum, path.text, some key⟩
        return .enumOf name x.name.real

/-- The first run that succeeds. Only a misfit leads on to the next one; the last misfit stands if
none succeeds. -/
def firstFit (last : Option Fault) (whenEmpty : Checked Value) :
    List (Unit → Checked Value) → Checked Value
  | [] => match last with
    | some e => .fail e
    | none => whenEmpty
  | run :: runs =>
    let r := run ()
    match r.result with
    | .error (.convert e) =>
      let rest := firstFit (some (.convert e)) whenEmpty runs
      ⟨r.events ++ rest.events, rest.result⟩
    | _ => r

/-- An entry of a map, unless its value does not fit: then it is dropped with an explanation. -/
def keepOrDrop (sink : Sink) (key : String) (r : Checked Value) :
    Checked (Option (String × Value)) :=
  match r.result with
  | .ok (v, notes) => ⟨r.events, .ok (some (key, v), notes)⟩
  | .error (.convert e) =>
    let tail : Checked (Option (String × Value)) := do
      .note { explanations := [⟨e.path.text, "dropped map entry: " ++ e.message⟩] }
      sink.report ⟨.debug, "dropped map entry " ++ key, some (.object [("error", .text e.message)])⟩
      return none
    ⟨r.events ++ tail.events, tail.result⟩
  | .error e => ⟨r.events, .error e⟩

/-- The constraints of a class that its reference does not repeat. -/
def ownConstraints (d : ClassDef) (a : Authored) : List Constraint :=
  d.constraints.filter fun c => !a.constraints.contains c

mutual

/-- The value in the form of a type, its constraints evaluated. -/
def coerce (c : Coercer) (pending : List String) (v : Value) (t : Ty Authored) (path : Path) :
    Checked Value := do
  let out ← coerceForm c pending v t path
  evaluateConstraints out t.ann.constraints c.eval c.sink
  return out
termination_by (sizeOf v, pending.length, sizeOf t, 1)

/-- The value in the form of a type, the constraints of the type's root aside. -/
def coerceForm (c : Coercer) (pending : List String) (v : Value) (t : Ty Authored) (path : Path) :
    Checked Value :=
  match t with
  | .top _ => pure v
  | .prim p a => coercePrim p (.prim p a) v path
  | .literal l _ => if l.matches v then pure v else misfit path l.display v .otherLiteral
  | .enumRef name d a => coerceEnum c name (.enumRef name d a) v path
  | .classRef name mode dyn a =>
    match c.schema.findClass? name mode with
    | none => broken (.unknownClass name) path
    | some d =>
      match h : v.entries? with
      | none => wrongKind (.classRef name mode dyn a) v path
      | some es => do
        let fs ← d.fields.mapM fun f =>
          let here := path.field f.name.real
          match hf : f.name.lookup? es with
          | none =>
            if c.schema.acceptsNull f.type then do
              .flag ⟨.optionalDefaulted, here.text, none⟩
              return (f.name.real, .null)
            else .fail (.convert (.missing here f.type.display))
          | some found =>
            if found.isNull && !c.schema.acceptsNull f.type then
              .fail (.convert (.nullForRequired here f.type.display))
            else return (f.name.real, ← coerce c c.schema.aliasNames found f.type here)
        let out := Value.ofFields name fs
        evaluateConstraints out (ownConstraints d a) c.eval c.sink
        return out
  | .list item a =>
    match h : v.items? with
    | none => wrongKind (.list item a) v path
    | some items =>
      .list <$> items.attach.zipIdx.mapM fun p =>
        coerce c c.schema.aliasNames p.1.val item (path.index p.2)
  | .map key value a =>
    match h : v.entries? with
    | none => wrongKind (.map key value a) v path
    | some es => do
      let kept ← es.attach.mapM fun p =>
        keepOrDrop c.sink p.val.1 (coerce c c.schema.aliasNames p.val.2 value (path.key p.val.1))
      return .ofEntries (kept.filterMap id)
  | .tuple types a =>
    match h : v.items? with
    | none => wrongKind (.tuple types a) v path
    | some items =>
      if items.length = types.length then
        .list <$> ((items.attach.zip types).zipIdx).mapM fun p =>
          coerce c c.schema.aliasNames p.1.1.val p.1.2 (path.index p.2)
      else wrongKind (.tuple types a) v path
  | .aliasRef name _ _ =>
    match c.schema.expand? name with
    | none => broken (.unknownAlias name) path
    | some e =>
      if h : name ∈ pending then coerce c (pending.erase name) v e path else .fail .endless
  | .arrow ps r a => wrongKind (.arrow ps r a) v path
  | .union ms null a =>
    if v.isNull && null.isSome then pure v
    else
      firstFit none (wrongKind (.union ms null a) v path) (ms.attach.zipIdx.map fun m => fun _ => do
        let out ← coerce c pending v m.1.val path
        if 1 < ms.length then .flag ⟨.unionMember, path.text, some (toString m.2)⟩
        return out)
termination_by (sizeOf v, pending.length, sizeOf t, 0)
decreasing_by
  · obtain ⟨k, hk⟩ := Name.mem_of_lookup? hf
    exact Prod.Lex.left _ _ (Value.sizeOf_entry h hk)
  · exact Prod.Lex.left _ _ (Value.sizeOf_item h p.1.property)
  · exact Prod.Lex.left _ _ (Value.sizeOf_entry h p.property)
  · exact Prod.Lex.left _ _ (Value.sizeOf_item h p.1.1.property)
  · exact Prod.Lex.right _ (Prod.Lex.left _ _ (length_erase_lt h))
  · have := List.sizeOf_lt_of_mem m.1.property
    apply Prod.Lex.right
    apply Prod.Lex.right
    apply Prod.Lex.left
    simp only [Ty.union.sizeOf_spec]
    omega

end

/-- Coerces a value to a type. -/
def run (c : Coercer) (v : Value) (t : Ty Authored) (path : Path) : Checked Value :=
  c.coerce c.schema.aliasNames v t path

end Coercer

end ShapeSchema
