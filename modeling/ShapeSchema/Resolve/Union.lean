import ShapeSchema.Convert.Coerce

/-!
# Choosing a union member

The member of a union that governs a value is the first of those with the highest score. Literals
and enum variants score above bare kinds, a class scores the number of entries that it knows. A
value that nothing speaks for is ambiguous, unless there is only one member.

Aliases are followed as in coercion: each at most once, `pending` holding those that are left.
-/

-- the equations that a match names are used by the termination proofs alone
set_option linter.unusedVariables false

namespace ShapeSchema

/-- The member that was chosen, or the members that were equally good. -/
inductive Resolution where
  | resolved (t : Ty Authored)
  | ambiguous (candidates : List (Ty Authored))

namespace Score

def literal : Nat := 100
def enumVariant : Nat := 90
def primitive : Nat := 10
def container : Nat := 5
def enumAsText : Nat := 2

/-- How well a value matches a primitive type. -/
def ofPrim (p : Prim) (v : Value) : Nat :=
  match p, v with
  | .string, .text _ => primitive
  | .string, .enumOf _ _ => enumAsText
  | .int, .int _ => primitive
  | .float, .float _ => primitive
  | .bool, .bool _ => primitive
  | .media kind, .media m => if m.kind = kind then primitive else 0
  | _, _ => 0

/-- How many entries of a value are fields of a class, under their real or shown names. -/
def ofClass (d : ClassDef) (es : List (String × Value)) : Nat :=
  es.countP fun e => d.fields.any fun f => f.name.answersTo e.1

/-- How well a value matches an enum. -/
def ofEnum (e : EnumDef) (v : Value) : Nat :=
  match v.variantName? with
  | some name => if e.values.any fun x => x.name.answersTo name then enumVariant else 0
  | none => 0

end Score

namespace Schema

/-- One step of alias expansion. -/
def expandOnce (s : Schema) (t : Ty Authored) : Ty Authored :=
  match t with
  | .aliasRef name mode a => (s.expand? name).getD (.aliasRef name mode a)
  | t => t

/-- How well a value matches a type that is not an alias, apart from unions. -/
def scoreForm (s : Schema) (v : Value) (t : Ty Authored) : Nat :=
  match t with
  | .classRef name mode _ _ =>
    match v.entries?, s.findClass? name mode with
    | some es, some d => Score.ofClass d es
    | _, _ => 0
  | .enumRef name _ _ =>
    match s.findEnum? name with
    | some e => Score.ofEnum e v
    | none => 0
  | .literal l _ => if l.matches v then Score.literal else 0
  | .prim p _ => Score.ofPrim p v
  | .list _ _ => if v.items?.isSome then Score.container else 0
  | .map _ _ _ =>
    match v with
    | .map _ => Score.container
    | _ => 0
  | _ => 0

/-- How well a value matches a type; an alias counts as its expansion, unless that is an alias
again, and a union scores as its best member. -/
def scoreAmong (s : Schema) (pending : List String) (v : Value) (t : Ty Authored) : Nat :=
  match t with
  | .union ms null a => (ms.attach.map fun m => scoreAmong s pending v m.val).foldl max 0
  | .aliasRef name _ _ =>
    match s.expand? name with
    | none => 0
    | some (.aliasRef _ _ _) => 0
    | some e => if h : name ∈ pending then scoreAmong s (pending.erase name) v e else 0
  | t => s.scoreForm v t
termination_by (pending.length, sizeOf t)
decreasing_by
  · have := List.sizeOf_lt_of_mem m.property
    apply Prod.Lex.right
    simp only [Ty.union.sizeOf_spec]
    omega
  · exact Prod.Lex.left _ _ (length_erase_lt h)

/-- How well a value matches a type. -/
def score (s : Schema) (v : Value) (t : Ty Authored) : Nat := s.scoreAmong s.aliasNames v t

/-- The highest score of some members. -/
def topScore (s : Schema) (v : Value) (members : List (Ty Authored)) : Nat :=
  (members.map (s.score v)).foldl max 0

/-- The members with the highest score, in order. -/
def leaders (s : Schema) (v : Value) (members : List (Ty Authored)) : List (Ty Authored) :=
  members.filter fun m => s.score v m == s.topScore v members

/-- Chooses a member of a union for a value that is not null. -/
def choose (s : Schema) (v : Value) (members : List (Ty Authored)) : Resolution :=
  match s.leaders v members with
  | [] => .ambiguous []
  | t :: ts => if ts.isEmpty || 0 < s.topScore v members then .resolved t else .ambiguous (t :: ts)

/-- Chooses a member of a union for a value; an alias is expanded once. -/
def resolveUnion (s : Schema) (v : Value) (members : List (Ty Authored)) (null : Option Authored) :
    Resolution :=
  if v.isNull then null.elim (.ambiguous members) fun a => .resolved (.prim .null a)
  else match s.choose v members with
    | .resolved t => .resolved (s.expandOnce t)
    | r => r

theorem mem_of_choose {s : Schema} {v : Value} {members : List (Ty Authored)} {t : Ty Authored}
    (h : s.choose v members = .resolved t) : t ∈ members := by
  unfold choose at h
  split at h
  · exact Resolution.noConfusion h
  · rename_i u us heq
    split at h
    · cases h
      have : t ∈ s.leaders v members := heq ▸ List.mem_cons_self
      exact (List.mem_filter.1 this).1
    · exact Resolution.noConfusion h

/-- The type that governs a value: aliases are expanded and unions resolved until neither is left.
-/
def resolveAmong (s : Schema) (pending : List String) (v : Value) (t : Ty Authored) : Resolution :=
  match t with
  | .aliasRef name mode a =>
    match s.expand? name with
    | none => .resolved (.aliasRef name mode a)
    | some e =>
      if h : name ∈ pending then resolveAmong s (pending.erase name) v e else .ambiguous []
  | .union ms null a =>
    if v.isNull then null.elim (.ambiguous ms) fun n => .resolved (.prim .null n)
    else match h : s.choose v ms with
      | .resolved m => resolveAmong s pending v m
      | r => r
  | t => .resolved t
termination_by (pending.length, sizeOf t)
decreasing_by
  · exact Prod.Lex.left _ _ (length_erase_lt h)
  · have := List.sizeOf_lt_of_mem (mem_of_choose h)
    apply Prod.Lex.right
    simp only [Ty.union.sizeOf_spec]
    omega

/-- The type that governs a value. -/
def resolve (s : Schema) (v : Value) (t : Ty Authored) : Resolution :=
  s.resolveAmong s.aliasNames v t

end Schema

end ShapeSchema
