import Mathlib.Data.List.Basic
import ShapeSchema.Decimal.Reading

/-!
# Text of whole numbers

`readInt_toString` is the main result: the decimal text of a whole number reads back as that number,
so distinct whole numbers have distinct texts (`toString_injective`).
-/

namespace ShapeSchema.Decimal

/-! ## Digits -/

theorem digitValue_of_isDigit {c : Char} (h : c.isDigit = true) :
    digitValue? 10 c = some (c.toNat - '0'.toNat) := by
  have hc : 48 ≤ c.toNat ∧ c.toNat ≤ 57 := by
    simpa [Char.isDigit, UInt32.le_iff_toNat_le] using h
  have hz : '0'.toNat = 48 := rfl
  unfold digitValue?
  simp only [if_pos hc, hz, Option.filter_some]
  rw [if_pos (by rw [decide_eq_true_eq]; omega)]

theorem isDigit_of_isDigit {c : Char} (h : c.isDigit = true) : isDigit c = true := by
  unfold isDigit
  rw [digitValue_of_isDigit h]
  rfl

theorem natOfDigits_eq_ofDigitChars {cs : List Char} (h : ∀ c ∈ cs, c.isDigit = true) :
    natOfDigits 10 cs = Nat.ofDigitChars 10 cs 0 := by
  rw [Nat.ofDigitChars_eq_foldl]
  unfold natOfDigits
  refine List.foldl_ext _ _ _ fun n c hc => ?_
  rw [digitValue_of_isDigit (h c hc), Option.getD_some, Nat.mul_comm n 10]

theorem isDigit_of_mem_toDigits {n : Nat} {c : Char} (h : c ∈ Nat.toDigits 10 n) :
    c.isDigit = true :=
  Nat.isDigit_of_mem_toDigits (by decide) (by decide) h

theorem natOfDigits_toDigits (n : Nat) : natOfDigits 10 (Nat.toDigits 10 n) = n := by
  rw [natOfDigits_eq_ofDigitChars fun c => isDigit_of_mem_toDigits]
  exact Nat.ofDigitChars_ten_toDigits

/-! ## Signs -/

theorem takeSign_toDigits (n : Nat) : takeSign (Nat.toDigits 10 n) = (false, Nat.toDigits 10 n) := by
  cases h : Nat.toDigits 10 n with
  | nil => exact absurd h Nat.toDigits_ne_nil
  | cons c cs =>
    have hc : c.isDigit = true := isDigit_of_mem_toDigits (n := n) (h ▸ List.mem_cons_self)
    unfold takeSign
    split
    · next he => rw [(List.cons.inj he).1] at hc; exact absurd hc (by decide)
    · next he => rw [(List.cons.inj he).1] at hc; exact absurd hc (by decide)
    · rfl

theorem readInt_of_takeSign {s : String} (neg : Bool) (n : Nat)
    (h : takeSign s.toList = (neg, Nat.toDigits 10 n)) :
    readInt? s = some (if neg then -(n : Int) else n) := by
  have hne : (Nat.toDigits 10 n).isEmpty = false := by
    rw [List.isEmpty_eq_false_iff]
    exact Nat.toDigits_ne_nil
  have hall : (Nat.toDigits 10 n).all isDigit = true :=
    List.all_eq_true.2 fun c hc => isDigit_of_isDigit (isDigit_of_mem_toDigits hc)
  unfold readInt?
  simp only [h, hne, hall]
  rw [if_neg (by decide), natOfDigits_toDigits]

/-! ## Whole numbers -/

theorem readInt_toString (n : Int) : readInt? (toString n) = some n := by
  cases n with
  | ofNat n =>
    refine readInt_of_takeSign false n ?_
    show takeSign n.repr.toList = _
    rw [Nat.toList_repr]
    exact takeSign_toDigits n
  | negSucc n =>
    have hs : (toString (Int.negSucc n)).toList = '-' :: Nat.toDigits 10 (n + 1) := by
      show ("-" ++ (n + 1).repr).toList = _
      rw [String.toList_append, Nat.toList_repr]
      rfl
    rw [readInt_of_takeSign true (n + 1) (by rw [hs]; rfl)]
    rfl

theorem toString_injective {m n : Int} (h : toString m = toString n) : m = n := by
  have hr := readInt_toString m
  rw [h, readInt_toString n] at hr
  exact (Option.some.inj hr).symm

end ShapeSchema.Decimal
