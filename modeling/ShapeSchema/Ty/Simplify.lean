import ShapeSchema.Ty.Canonical

/-!
# Simplifying unions

Nested unions are flattened, except those that carry checks; repeated members and members that such
a checked union already covers are dropped. A union of one member is that member, a union of none is
null.
-/

namespace ShapeSchema.Ty

variable {μ : Type} [Metadata μ]

mutual

/-- The members that a type contributes to a union around it: a union gives its own, unless `keep`
holds. -/
def flatten (keep : μ → Bool) : Ty μ → List (Ty μ)
  | union ms null a => if keep a then [union ms null a] else flattenAll keep ms ++ nullMember null
  | t => [t]

/-- The flattened members of a list of types. -/
def flattenAll (keep : μ → Bool) : List (Ty μ) → List (Ty μ)
  | [] => []
  | t :: ts => flatten keep t ++ flattenAll keep ts

end

/-- Is a type among the members of a union? -/
def coveredByUnion (t : Ty μ) : Ty μ → Bool
  | union ms null _ => (t.isNull && null.isSome) || ms.any fun m => m.same t
  | _ => false

/-- The first of each group of equal types. -/
def dedupe (ts : List (Ty μ)) : List (Ty μ) :=
  ts.foldl (fun kept t => if kept.any fun m => m.same t then kept else kept ++ [t]) []

/-- The simplified union of some types. `a` annotates the union if one is left, `nullAnn` the null
that stands for a union of nothing. -/
def simplifyUnion (types : List (Ty μ)) (a nullAnn : μ) : Ty μ :=
  let flat := flattenAll Metadata.hasChecks types
  let checked := flat.filter isUnion
  let shown := flat.filter fun t => t.isUnion || !checked.any (coveredByUnion t)
  let null := shown.findSome? nullAnn?
  match dedupe (shown.filter fun t => !t.isNull) with
  | [] => prim .null (null.getD nullAnn)
  | [t] => match null with
    | none => t
    | some n => optionalOf t n
  | members => union members null a

/-- Appends the constraints of a union to those of the type that stands for it. -/
def absorb (t : Ty μ) (a : μ) : Ty μ :=
  if t.isUnion then t else t.withConstraints (Metadata.constraints a)

mutual

/-- Simplifies every union of a type, from the leaves up. -/
def simplify : Ty μ → Ty μ
  | list i a => list (simplify i) a
  | map k v a => map (simplify k) (simplify v) a
  | tuple is a => tuple (simplifyAll is) a
  | arrow ps r a => arrow (simplifyAll ps) (simplify r) a
  | union ms null a => (simplifyUnion (simplifyAll ms ++ nullMember null) a a).absorb a
  | t => t

def simplifyAll : List (Ty μ) → List (Ty μ)
  | [] => []
  | t :: ts => simplify t :: simplifyAll ts

end

end ShapeSchema.Ty
