/-!
# Filling a placeholder

A placeholder is filled at its first occurrence. In the text that is filled in a dollar sign is
live: `$$` stands for one dollar, `$&` for the placeholder itself, and a dollar before a grave
accent or an apostrophe for what precedes or follows the placeholder.
-/

namespace ShapeSchema.Text

/-- What precedes and what follows the first occurrence of `mark`. -/
def splitAtFirst (mark : List Char) : List Char → Option (List Char × List Char)
  | [] => if mark.isEmpty then some ([], []) else none
  | c :: cs =>
    if mark.isPrefixOf (c :: cs) then some ([], (c :: cs).drop mark.length)
    else (splitAtFirst mark cs).map fun p => (c :: p.1, p.2)

/-- The text that stands for `mark` between `before` and `after`, dollar patterns expanded. -/
def expandDollars (before mark after : List Char) : List Char → List Char
  | '$' :: '$' :: cs => '$' :: expandDollars before mark after cs
  | '$' :: '&' :: cs => mark ++ expandDollars before mark after cs
  | '$' :: '\x60' :: cs => before ++ expandDollars before mark after cs
  | '$' :: '\'' :: cs => after ++ expandDollars before mark after cs
  | c :: cs => c :: expandDollars before mark after cs
  | [] => []

/-- Fills the first occurrence of `mark` in `text`. -/
def fillFirst (text mark fill : String) : String :=
  match splitAtFirst mark.toList text.toList with
  | none => text
  | some (before, after) =>
    String.ofList (before ++ expandDollars before mark.toList after fill.toList ++ after)

end ShapeSchema.Text
