import ShapeSchema.Shape.Graph
import ShapeSchema.Text.Blank

/-!
# Names, descriptions and constraints of declarations

The names of synthesized classes, the description that documentation lines give, and the constraints
that checks and asserts declare.
-/

namespace ShapeSchema

/-- Real and rendered name of the class that holds one entry of a map written as pairs. -/
def entryClassName (ctx : FieldContext) : String × String :=
  let field := ctx.field ++ "__Entry"
  let inner := match ctx.variant with
    | some v => v ++ "__" ++ field
    | none => field
  (ctx.owner ++ "::" ++ inner, ctx.renderedVariant.getD "" ++ ctx.renderedField ++ "Entry")

/-- The context of an entry class that belongs to no field. -/
def FieldContext.detached : FieldContext := ⟨"MapEntry", "entries", "entries", none, none⟩

/-- The class of an enum's variant. -/
def variantClassName (internal : String) (v : Variant) : String := internal ++ "__" ++ v.name

/-- Documentation lines, each trimmed, as one text; blank documentation is no description. -/
def docDescription (doc : List String) : Option String :=
  some (Text.trim ("\n".intercalate (doc.map Text.trim))) |>.filter (· != "")

/-- Lines of a text. -/
def docLines (text : String) : List String := text.splitOn "\n"

/-- The constraints that rules declare, checks first. -/
def constraintsOf (checks asserts : List Rule) : List Constraint :=
  checks.map (fun r => ⟨.check, r.label, r.expression⟩)
    ++ asserts.map (fun r => ⟨.assert, r.label, r.expression⟩)

/-- What is wrong with a constraint list whose earlier checks have the given labels. -/
def constraintProblem? (seen : List String) : List Constraint → Option ConstraintProblem
  | [] => none
  | c :: cs =>
    if Text.allBlank c.expression then some (.blankExpression c.level c.label)
    else match c.level, c.label with
      | .assert, _ => constraintProblem? seen cs
      | .check, none => some .unlabelledCheck
      | .check, some l =>
        if Text.allBlank l then some .unlabelledCheck
        else if seen.contains l then some (.repeatedLabel l)
        else constraintProblem? (l :: seen) cs

end ShapeSchema
