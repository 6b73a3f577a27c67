import ShapeSchema.Expr.Dump
import ShapeSchema.Expr.ListFilter

/-!
# Filters by name

A name that is no filter may still be that of a function that every object has.
-/

namespace ShapeSchema.Expr

open ShapeSchema.Expr.Filter in
/-- The filters by name. -/
def filters : List (String × Action) :=
  [("abs", abs), ("batch", batch), ("capitalize", mapMarkup capitalized), ("center", center),
    ("d", Filter.default), ("default", Filter.default), ("dictsort", sortMembers), ("dump", dump),
    ("e", asMarkup true), ("escape", asMarkup true), ("first", first), ("float", float),
    ("forceescape", fun d _ => markup true d), ("groupby", groupBy), ("indent", indent),
    ("int", int), ("join", join), ("last", last), ("length", length), ("list", list),
    ("lower", mapText Text.lowerUnits), ("nl2br", breakLines), ("random", first),
    ("reject", select false), ("rejectattr", selectAttribute false), ("replace", replace),
    ("reverse", reverse), ("round", round), ("safe", asMarkup false), ("select", select true),
    ("selectattr", selectAttribute true), ("slice", columns), ("sort", sort),
    ("string", Filter.text), ("striptags", strip), ("sum", sum),
    ("title", mapMarkup titled), ("trim", trim), ("truncate", truncate),
    ("upper", mapText Text.upperUnits), ("urlencode", encode), ("urlize", unoffered),
    ("wordcount", countWords)]

/-- The value of a filter; the value it works on is the first of the arguments. -/
def applyFilter (name : String) (args : List Datum) : Run Datum := do
  match Entries.find? filters name, Entries.find? objectMethods name with
  | some act, _ => act (argument args 0) args.tail
  | none, some act => act surroundings args
  | none, none => throw (.unknownFilter name)

/-- Does a name stand for a filter? -/
def isFilter (name : String) : Bool :=
  (Entries.find? filters name).isSome || (Entries.find? objectMethods name).isSome

end ShapeSchema.Expr
