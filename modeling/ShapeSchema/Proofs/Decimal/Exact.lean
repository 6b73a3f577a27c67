import Mathlib.Tactic.Ring
import ShapeSchema.Decimal.Shortest
import ShapeSchema.Proofs.Decimal.Whole

/-!
# Whole numbers as binary64 numbers

A whole number of less than fifty-three bits is a binary64 number without loss: it is read off the
number again (`toInt_ofInt`), and the number is written like it (`text_ofInt`). The shortest decimal
is the whole number less some zeros at its end, which the text then gets back.
-/

namespace ShapeSchema.Double

/-- A number is `±m`, of which the mantissa has `k` bits below the point. -/
structure Whole (d : Double) (neg : Bool) (m k : Nat) : Prop where
  negative : d.negative = neg
  exponentBits : d.exponentBits = 1075 - k
  fractionBits : exponentWeight + d.fractionBits = m * 2 ^ k
  low : 1 ≤ k
  high : k ≤ 52
  upper : m * 2 ^ k < 2 * exponentWeight

/-! ## From whole numbers -/

theorem bits_ofMagnitudeBits (neg : Bool) {e f : Nat} (he : e < 2047) (hf : f < exponentWeight) :
    (ofMagnitudeBits neg (e * exponentWeight + f)).negative = neg ∧
      (ofMagnitudeBits neg (e * exponentWeight + f)).exponentBits = e ∧
      (ofMagnitudeBits neg (e * exponentWeight + f)).fractionBits = f := by
  unfold exponentWeight at *
  have bits : (ofMagnitudeBits neg (e * 0x10000000000000 + f)).bits.toNat =
      (if neg then signWeight else 0) + (e * 0x10000000000000 + f) := by
    unfold ofMagnitudeBits
    rw [UInt64.toNat_ofNat']
    unfold signWeight
    cases neg <;> simp <;> omega
  unfold negative exponentBits fractionBits exponentWeight
  rw [bits]
  unfold signWeight
  cases neg
  · refine ⟨?_, ?_, ?_⟩
    · simp
      omega
    · simp
      omega
    · simp
      omega
  · refine ⟨?_, ?_, ?_⟩
    · simp
    · simp
      omega
    · simp
      omega

theorem roundQuotient_one (n : Nat) : roundQuotient n 1 = n := by
  unfold roundQuotient
  simp [Nat.mod_one]

/-- The mantissa of a whole number fills fifty-three bits. -/
theorem mantissa_bounds {m : Nat} (hm : m ≠ 0) (h : m < exponentWeight) :
    m.log2 < 52 ∧ exponentWeight ≤ m * 2 ^ (52 - m.log2) ∧
      m * 2 ^ (52 - m.log2) < 2 * exponentWeight := by
  have hl : m.log2 < 52 := (Nat.log2_lt hm).2 h
  have hpow : 2 ^ m.log2 * 2 ^ (52 - m.log2) = exponentWeight := by
    rw [← Nat.pow_add, Nat.add_sub_of_le (Nat.le_of_lt hl)]
    rfl
  refine ⟨hl, ?_, ?_⟩
  · rw [← hpow]
    exact Nat.mul_le_mul_right _ (Nat.log2_self_le hm)
  · have : 2 ^ (m.log2 + 1) * 2 ^ (52 - m.log2) = 2 * exponentWeight := by
      rw [Nat.pow_succ, Nat.mul_comm _ 2, Nat.mul_assoc, hpow]
    rw [← this]
    exact Nat.mul_lt_mul_of_pos_right Nat.lt_log2_self (Nat.two_pow_pos _)

theorem ofQuotient_one (neg : Bool) {m : Nat} (hm : m ≠ 0) (h : m < exponentWeight) :
    ofQuotient neg m 1 = ofMagnitudeBits neg
      ((m.log2 + 1023) * exponentWeight + (m * 2 ^ (52 - m.log2) - exponentWeight)) := by
  obtain ⟨hl, hlow, hhigh⟩ := mantissa_bounds hm h
  have hone : (1 : Nat).log2 = 0 := by decide
  have hbig : ¬ ((m.log2 : Int) - (0 : Nat) < 0) := by omega
  have habs : ((m.log2 : Int) - (0 : Nat)).natAbs = m.log2 := by omega
  have htop : 1 * Nat.pow 2 m.log2 ≤ m := by
    rw [Nat.one_mul]
    exact Nat.log2_self_le hm
  have hq : max ((m.log2 : Int) - (0 : Nat) - 52) (-1074) = (m.log2 : Int) - 52 := by omega
  have hneg : (m.log2 : Int) - 52 < 0 := by omega
  have hqabs : ((m.log2 : Int) - 52).natAbs = 52 - m.log2 := by omega
  have hexp : ((m.log2 : Int) - 52 + 1075).toNat = m.log2 + 1023 := by omega
  unfold ofQuotient
  rw [if_neg (by omega)]
  simp only [hone, if_neg hbig, habs, decide_eq_true htop, if_true, hq, if_pos hneg, hqabs,
    roundQuotient_one, hexp]
  rw [if_neg (show ¬ m * Nat.pow 2 (52 - m.log2) < exponentWeight from Nat.not_lt.2 hlow),
    if_neg]
  · rfl
  · show ¬ 2047 * exponentWeight ≤ (m.log2 + 1023) * exponentWeight +
      (m * 2 ^ (52 - m.log2) - exponentWeight)
    unfold exponentWeight at *
    omega

theorem whole_ofInt {n : Int} (hn : n ≠ 0) (h : n.natAbs < exponentWeight) :
    Whole (ofInt n) (decide (n < 0)) n.natAbs (52 - n.natAbs.log2) := by
  have hm : n.natAbs ≠ 0 := Int.natAbs_ne_zero.2 hn
  obtain ⟨hl, hlow, hhigh⟩ := mantissa_bounds hm h
  have hd : ofInt n = _ := ofQuotient_one (decide (n < 0)) hm h
  obtain ⟨hneg, he, hf⟩ := bits_ofMagnitudeBits (decide (n < 0))
    (show n.natAbs.log2 + 1023 < 2047 by omega)
    (show n.natAbs * 2 ^ (52 - n.natAbs.log2) - exponentWeight < exponentWeight by omega)
  rw [hd]
  exact ⟨hneg, by rw [he]; omega, by rw [hf]; omega, by omega, by omega, hhigh⟩

namespace Whole

variable {d : Double} {neg : Bool} {m k : Nat}

theorem exponentBits_ne (h : Whole d neg m k) : d.exponentBits ≠ 0 ∧ d.exponentBits ≠ 2047 := by
  have := h.exponentBits
  have := h.high
  omega

theorem mantissa (h : Whole d neg m k) : d.mantissa = m * 2 ^ k := by
  unfold Double.mantissa
  rw [if_neg h.exponentBits_ne.1, h.fractionBits]

theorem exponent (h : Whole d neg m k) : d.exponent = -(k : Int) := by
  have := h.exponentBits
  have := h.high
  unfold Double.exponent
  rw [if_neg h.exponentBits_ne.1]
  omega

theorem isFinite (h : Whole d neg m k) : d.isFinite = true := by
  unfold Double.isFinite
  simp [h.exponentBits_ne.2]

theorem isNaN (h : Whole d neg m k) : d.isNaN = false := by
  unfold Double.isNaN
  simp [h.exponentBits_ne.2]

theorem isZero (h : Whole d neg m k) : d.isZero = false := by
  unfold Double.isZero
  simp [h.exponentBits_ne.1]

theorem toInt? (h : Whole d neg m k) : d.toInt? = some (if neg then -(m : Int) else m) := by
  have := h.low
  unfold Double.toInt?
  rw [h.isFinite, h.exponent, h.mantissa, h.negative]
  rw [if_neg (by simp), if_neg (by omega)]
  have hk : (-(k : Int)).natAbs = k := by omega
  simp only [hk]
  show (if m * 2 ^ k % 2 ^ k = 0 then some _ else none) = _
  rw [Nat.mul_mod_left, if_pos rfl]
  show some (if neg = true then -((m * 2 ^ k / 2 ^ k : Nat) : Int) else (m * 2 ^ k / 2 ^ k : Nat)) = _
  rw [Nat.mul_div_cancel _ (Nat.two_pow_pos k)]

end Whole

theorem ofInt_zero : ofInt 0 = zero := rfl

theorem toInt_zero : zero.toInt? = some 0 := by
  have hf : zero.isFinite = true := rfl
  have hm : zero.mantissa = 0 := rfl
  have hs : zero.negative = false := rfl
  have he : ¬ 0 ≤ zero.exponent := by decide
  unfold toInt?
  rw [hf, if_neg (by decide)]
  simp only [if_neg he, hm, hs, Nat.zero_mod, Nat.zero_div, if_true]
  rfl

/-- A whole number is read off its binary64 number again. -/
theorem toInt_ofInt {n : Int} (h : n.natAbs < exponentWeight) : (ofInt n).toInt? = some n := by
  by_cases hn : n = 0
  · rw [hn, ofInt_zero, toInt_zero]
  rw [(whole_ofInt hn h).toInt?]
  simp only [decide_eq_true_eq]
  split
  · congr 1
    omega
  · congr 1
    omega

/-! ## The shortest decimal -/

namespace Whole

variable {d : Double} {neg : Bool} {m k : Nat}

theorem mid (h : Whole d neg m k) : d.neighbourhood.mid = m * 2 ^ (k + 2) := by
  show 4 * d.mantissa = _
  rw [h.mantissa, Nat.pow_add]
  ring

theorem quarter (h : Whole d neg m k) : d.neighbourhood.quarter = -((k + 2 : Nat) : Int) := by
  show d.exponent - 2 = _
  rw [h.exponent]
  omega

theorem pos (h : Whole d neg m k) : 0 < m := by
  have := h.fractionBits
  unfold exponentWeight at this
  refine Nat.pos_of_ne_zero fun hm => ?_
  rw [hm, Nat.zero_mul] at this
  omega

/-- A decimal without fraction lies in the neighbourhood of a whole number only if it equals it. -/
theorem nearest (h : Whole d neg m k) (s : Nat) :
    d.neighbourhood.nearest? s = if 10 ^ s ∣ m then some (m / 10 ^ s) else none := by
  have hT : 0 < 10 ^ s := Nat.pow_pos (by decide)
  have hU : 8 ≤ 2 ^ (k + 2) := by
    have := Nat.pow_le_pow_right (show 0 < 2 by decide) (show 3 ≤ k + 2 by have := h.low; omega)
    omega
  have hhigh : d.neighbourhood.high = m * 2 ^ (k + 2) + 2 := by
    rw [← h.mid]
    rfl
  have hlow : d.neighbourhood.low < m * 2 ^ (k + 2) ∧
      m * 2 ^ (k + 2) ≤ d.neighbourhood.low + 2 := by
    have hpos : 0 < d.mantissa := by
      rw [h.mantissa]
      exact Nat.mul_pos h.pos (Nat.two_pow_pos k)
    have hlow : d.neighbourhood.low = 4 * d.mantissa - 1 ∨
        d.neighbourhood.low = 4 * d.mantissa - 2 := by
      unfold neighbourhood
      simp only
      split
      · exact .inl rfl
      · exact .inr rfl
    have hmid : 4 * d.mantissa = m * 2 ^ (k + 2) := h.mid
    omega
  -- another multiple of the step is off by eight quarters or more
  have apart (c : Nat) (hc : c * 10 ^ s ≠ m) :
      c * (10 ^ s * 2 ^ (k + 2)) + 8 ≤ m * 2 ^ (k + 2) ∨
      m * 2 ^ (k + 2) + 8 ≤ c * (10 ^ s * 2 ^ (k + 2)) := by
    rw [← Nat.mul_assoc]
    rcases Nat.lt_or_gt_of_ne hc with hlt | hgt
    · have := Nat.mul_le_mul_right (2 ^ (k + 2)) (show c * 10 ^ s + 1 ≤ m from hlt)
      rw [Nat.add_mul] at this
      omega
    · have := Nat.mul_le_mul_right (2 ^ (k + 2)) (show m + 1 ≤ c * 10 ^ s from hgt)
      rw [Nat.add_mul] at this
      omega
  have inside (c : Nat) : (if d.neighbourhood.closed = true then
      decide (d.neighbourhood.low ≤ c * (10 ^ s * 2 ^ (k + 2))) &&
        decide (c * (10 ^ s * 2 ^ (k + 2)) ≤ d.neighbourhood.high)
      else decide (d.neighbourhood.low < c * (10 ^ s * 2 ^ (k + 2))) &&
        decide (c * (10 ^ s * 2 ^ (k + 2)) < d.neighbourhood.high)) = decide (c * 10 ^ s = m) := by
    by_cases hc : c * 10 ^ s = m
    · rw [← Nat.mul_assoc, hc, hhigh, decide_eq_true rfl]
      split <;> simp <;> omega
    · rw [hhigh, decide_eq_false hc]
      rcases apart c hc with hfar | hfar <;> split <;> simp <;> omega
  have hquotient : m * 2 ^ (k + 2) / (10 ^ s * 2 ^ (k + 2)) = m / 10 ^ s :=
    Nat.mul_div_mul_right _ _ (Nat.two_pow_pos _)
  have hunit : Nat.pow 10 (-(s : Int)).toNat * Nat.pow 2 d.neighbourhood.quarter.toNat = 1 := by
    rw [h.quarter, show (-(s : Int)).toNat = 0 by omega,
      show (-((k + 2 : Nat) : Int)).toNat = 0 by omega]
  have hstep : Nat.pow 10 (s : Int).toNat * Nat.pow 2 (-d.neighbourhood.quarter).toNat =
      10 ^ s * 2 ^ (k + 2) := by
    rw [h.quarter, show (-(-((k + 2 : Nat) : Int))).toNat = k + 2 by omega, Int.toNat_natCast]
    rfl
  unfold Neighbourhood.nearest?
  simp only [hunit, hstep, Nat.mul_one, h.mid, hquotient]
  rw [inside, inside]
  have habove : (m / 10 ^ s + 1) * 10 ^ s ≠ m := by
    have := Nat.lt_div_mul_add hT (a := m)
    rw [Nat.add_mul]
    omega
  rw [decide_eq_false habove]
  by_cases hd : 10 ^ s ∣ m
  · rw [decide_eq_true (Nat.div_mul_cancel hd), if_pos hd]
  · rw [decide_eq_false (fun he => hd ⟨m / 10 ^ s, by rw [Nat.mul_comm]; exact he.symm⟩), if_neg hd]

theorem decade (h : Whole d neg m k) :
    decade (d.neighbourhood.mid * Nat.pow 2 d.neighbourhood.quarter.toNat)
      (Nat.pow 2 (-d.neighbourhood.quarter).toNat) = (Nat.toDigits 10 m).length := by
  rw [h.quarter, show (-((k + 2 : Nat) : Int)).toNat = 0 by omega,
    show (-(-((k + 2 : Nat) : Int))).toNat = k + 2 by omega, h.mid]
  unfold Double.decade digitCount
  show (if 2 ^ (k + 2) ≤ m * 2 ^ (k + 2) * 1 then
    ((Nat.toDigits 10 (m * 2 ^ (k + 2) * 1 / 2 ^ (k + 2))).length : Int) else _) = _
  rw [Nat.mul_one, if_pos (Nat.le_mul_of_pos_left _ h.pos), Nat.mul_div_cancel _ (Nat.two_pow_pos _)]

/-- The shortest decimal of a whole number is the number less some zeros. -/
theorem shortest (h : Whole d neg m k) :
    ∃ s : Nat, 10 ^ s ∣ m ∧ d.shortest = (m / 10 ^ s, (s : Int)) := by
  have hlen : (Nat.toDigits 10 m).length ≤ 16 := by
    rw [Nat.length_toDigits_le_iff (by decide) (by decide)]
    have := h.upper
    have hk := Nat.le_mul_of_pos_right m (Nat.two_pow_pos k)
    unfold exponentWeight at this
    omega
  have hpos : 0 < (Nat.toDigits 10 m).length := Nat.length_toDigits_pos
  unfold Double.shortest
  simp only [h.decade]
  generalize (Nat.toDigits 10 m).length = e at hlen hpos
  have hrange : List.range 17 = List.range e ++ (List.range (17 - e)).map (e + ·) := by
    rw [← List.range_add, Nat.add_sub_of_le (by omega)]
  rw [hrange, List.findSome?_append]
  -- at the last digit before the point the whole number itself is found
  cases hf : (List.range e).findSome? fun i =>
      (d.neighbourhood.nearest? ((e : Int) - (i + 1 : Nat))).map fun c =>
        (c, (e : Int) - (i + 1 : Nat)) with
  | none =>
    have := List.findSome?_eq_none_iff.1 hf (e - 1) (List.mem_range.2 (by omega))
    rw [show (e : Int) - (e - 1 + 1 : Nat) = (0 : Nat) by omega, h.nearest] at this
    simp at this
  | some p =>
    obtain ⟨i, hi, hp⟩ := List.exists_of_findSome?_eq_some hf
    have hi' := List.mem_range.1 hi
    rw [show (e : Int) - (i + 1 : Nat) = ((e - (i + 1) : Nat) : Int) by omega, h.nearest] at hp
    refine ⟨e - (i + 1), ?_⟩
    split at hp
    · next hd =>
      refine ⟨hd, ?_⟩
      simpa using hp.symm
    · cases hp

end Whole

/-! ## Texts -/

theorem toDigits_mul_pow {c : Nat} (hc : 0 < c) (s : Nat) :
    Nat.toDigits 10 (c * 10 ^ s) = Nat.toDigits 10 c ++ zeros s := by
  induction s with
  | zero => simp [zeros]
  | succ s ih =>
    have hpos : 0 < c * 10 ^ s := Nat.mul_pos hc (Nat.pow_pos (by decide))
    have := Nat.toDigits_append_toDigits (b := 10) (d := 0) (by decide) hpos (by decide)
    rw [Nat.pow_succ, ← Nat.mul_assoc, Nat.mul_comm _ 10, ← Nat.add_zero (10 * _), ← this, ih,
      List.append_assoc]
    unfold zeros
    rw [List.replicate_succ']
    rfl

theorem strip_zeros (cs : List Char) :
    (cs.reverse.dropWhile (· == '0')).reverse ++
      zeros (cs.length - (cs.reverse.dropWhile (· == '0')).reverse.length) = cs := by
  have htake : cs.reverse.takeWhile (· == '0') =
      zeros (cs.reverse.takeWhile (· == '0')).length :=
    List.eq_replicate_iff.2 ⟨rfl, fun c hc => by simpa using List.all_eq_true.1 List.all_takeWhile c hc⟩
  have hsplit := List.takeWhile_append_dropWhile (p := (· == '0')) (l := cs.reverse)
  have hlen := congrArg List.length hsplit
  rw [List.length_append, List.length_reverse] at hlen
  have hcs := congrArg List.reverse hsplit
  rw [List.reverse_append, List.reverse_reverse, htake] at hcs
  rw [List.length_reverse, show cs.length - (cs.reverse.dropWhile (· == '0')).length =
    (cs.reverse.takeWhile (· == '0')).length by omega]
  refine Eq.trans ?_ hcs
  unfold zeros
  rw [List.reverse_replicate]

theorem layOut_strip (cs : List Char) (s : Nat) (h : cs.length + s ≤ 21) :
    layOut (cs.reverse.dropWhile (· == '0')).reverse (cs.length + s) = cs ++ zeros s := by
  have hle : (cs.reverse.dropWhile (· == '0')).reverse.length ≤ cs.length := by
    rw [List.length_reverse, ← @List.length_reverse _ cs]
    exact (List.dropWhile_suffix _).length_le
  unfold layOut
  simp only
  rw [if_pos ⟨by omega, by omega⟩]
  conv => rhs; rw [← strip_zeros cs]
  rw [List.append_assoc]
  congr 1
  unfold zeros
  rw [List.replicate_append_replicate]
  congr 1
  omega

/-- The text of a whole number is its decimal text. -/
theorem text_ofInt {n : Int} (h : n.natAbs < exponentWeight) : (ofInt n).text = toString n := by
  by_cases hn : n = 0
  · subst hn
    rfl
  have hw := whole_ofInt hn h
  obtain ⟨s, hs, hshort⟩ := hw.shortest
  have hm : 0 < n.natAbs := Int.natAbs_pos.2 hn
  have hc : 0 < n.natAbs / 10 ^ s := Nat.div_pos (Nat.le_of_dvd hm hs) (Nat.pow_pos (by decide))
  have hdigits : Nat.toDigits 10 (n.natAbs / 10 ^ s) ++ zeros s = Nat.toDigits 10 n.natAbs := by
    rw [← toDigits_mul_pow hc, Nat.div_mul_cancel hs]
  have hlen : (Nat.toDigits 10 (n.natAbs / 10 ^ s)).length + s ≤ 21 := by
    have := congrArg List.length hdigits
    have hbound : (Nat.toDigits 10 n.natAbs).length ≤ 21 := by
      rw [Nat.length_toDigits_le_iff (by decide) (by decide)]
      unfold exponentWeight at h
      omega
    rw [List.length_append] at this
    unfold zeros at this
    rw [List.length_replicate] at this
    omega
  unfold text
  rw [hw.isNaN, hw.isFinite, hw.isZero, hshort, hw.negative]
  simp only [Bool.false_eq_true, if_false, Bool.not_true]
  rw [layOut_strip _ _ hlen, hdigits]
  apply String.toList_inj.1
  rw [String.toList_ofList]
  cases n with
  | ofNat n =>
    have hneg : ¬ Int.ofNat n < 0 := Int.not_lt.2 (Int.natCast_nonneg n)
    rw [decide_eq_false hneg]
    exact Nat.toList_repr.symm
  | negSucc n =>
    rw [decide_eq_true (Int.negSucc_lt_zero n)]
    show _ = ("-" ++ (n + 1).repr).toList
    rw [String.toList_append, Nat.toList_repr]
    rfl

end ShapeSchema.Double
