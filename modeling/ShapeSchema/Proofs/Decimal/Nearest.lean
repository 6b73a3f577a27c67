import Mathlib.Algebra.Order.Field.Power
import Mathlib.Algebra.Order.Ring.Rat
import Mathlib.Data.Nat.Cast.Order.Field
import Mathlib.Tactic.Linarith
import Mathlib.Tactic.NormNum
import Mathlib.Tactic.Positivity
import Mathlib.Tactic.Ring
import ShapeSchema.Decimal.Shortest

/-!
# The decimals of a number

The reals that round to a number form an interval (`Neighbourhood.Holds`). The shortest decimal that
is searched for lies in it (`holds_shortest`), since of two neighbouring decimals of seventeen digits
one does, and no real lies in the intervals of two numbers (`eq_of_holds`).
-/

namespace ShapeSchema.Double

/-! ## Powers with whole exponents -/

theorem pow_toNat (b : Nat) (hb : 0 < b) (e : Int) :
    ((b ^ e.toNat : Nat) : ℚ) = (b : ℚ) ^ e * (b ^ (-e).toNat : Nat) := by
  have hne : (b : ℚ) ≠ 0 := by exact_mod_cast hb.ne'
  rcases Int.le_total 0 e with h | h
  · obtain ⟨n, rfl⟩ := Int.eq_ofNat_of_zero_le h
    simp
  · obtain ⟨n, hn⟩ := Int.eq_ofNat_of_zero_le (Int.neg_nonneg_of_nonpos h)
    obtain rfl : e = -(n : Int) := by omega
    simp [hne]

/-- What both sides of a comparison are multiplied by to compare whole numbers. -/
def scale (q s : Int) : ℚ := (10 ^ (-s).toNat : Nat) * (2 ^ (-q).toNat : Nat)

theorem scale_pos (q s : Int) : 0 < scale q s := by
  unfold scale
  positivity

theorem cast_unit (q s : Int) (x : Nat) :
    ((x * (10 ^ (-s).toNat * 2 ^ q.toNat) : Nat) : ℚ) = x * 2 ^ q * scale q s := by
  rw [Nat.cast_mul, Nat.cast_mul, pow_toNat 2 (by decide) q]
  unfold scale
  push_cast
  ring

theorem cast_step (q s : Int) (c : Nat) :
    ((c * (10 ^ s.toNat * 2 ^ (-q).toNat) : Nat) : ℚ) = c * 10 ^ s * scale q s := by
  rw [Nat.cast_mul, Nat.cast_mul, pow_toNat 10 (by decide) s]
  unfold scale
  push_cast
  ring

/-- The reals that round to a number. -/
structure Neighbourhood.Holds (r : Neighbourhood) (x : ℚ) : Prop where
  lower : r.low * 2 ^ r.quarter ≤ x
  upper : x ≤ r.high * 2 ^ r.quarter
  closed : x = r.low * 2 ^ r.quarter ∨ x = r.high * 2 ^ r.quarter → r.closed = true

/-- Does a multiple of a power of ten lie in the neighbourhood? -/
def Neighbourhood.covers (r : Neighbourhood) (s : Int) (c : Nat) : Bool :=
  let unit := 10 ^ (-s).toNat * 2 ^ r.quarter.toNat
  let step := 10 ^ s.toNat * 2 ^ (-r.quarter).toNat
  if r.closed then decide (r.low * unit ≤ c * step) && decide (c * step ≤ r.high * unit)
  else decide (r.low * unit < c * step) && decide (c * step < r.high * unit)

theorem Neighbourhood.covers_iff (r : Neighbourhood) (s : Int) (c : Nat) :
    r.covers s c = true ↔ r.Holds (c * 10 ^ s) := by
  have hpos := scale_pos r.quarter s
  have le_left (x : Nat) : x * (10 ^ (-s).toNat * 2 ^ r.quarter.toNat) ≤
      c * (10 ^ s.toNat * 2 ^ (-r.quarter).toNat) ↔ (x : ℚ) * 2 ^ r.quarter ≤ c * 10 ^ s := by
    rw [← @Nat.cast_le ℚ, cast_unit, cast_step, mul_le_mul_iff_left₀ hpos]
  have le_right (x : Nat) : c * (10 ^ s.toNat * 2 ^ (-r.quarter).toNat) ≤
      x * (10 ^ (-s).toNat * 2 ^ r.quarter.toNat) ↔ (c : ℚ) * 10 ^ s ≤ x * 2 ^ r.quarter := by
    rw [← @Nat.cast_le ℚ, cast_unit, cast_step, mul_le_mul_iff_left₀ hpos]
  unfold covers
  cases hc : r.closed with
  | true =>
    simp only [if_true, Bool.and_eq_true, decide_eq_true_eq, le_left, le_right]
    exact ⟨fun h => ⟨h.1, h.2, fun _ => hc⟩, fun h => ⟨h.lower, h.upper⟩⟩
  | false =>
    simp only [Bool.false_eq_true, if_false, Bool.and_eq_true, decide_eq_true_eq, ← not_le,
      le_left, le_right]
    constructor
    · rintro ⟨h, k⟩
      refine ⟨(not_le.1 h).le, (not_le.1 k).le, ?_⟩
      rintro (he | he)
      · exact absurd he.le h
      · exact absurd he.ge k
    · intro h
      constructor
      · intro hle
        have := h.closed (.inl (le_antisymm hle h.lower))
        simp [hc] at this
      · intro hle
        have := h.closed (.inr (le_antisymm h.upper hle))
        simp [hc] at this

theorem Neighbourhood.nearest?_eq (r : Neighbourhood) (s : Int) :
    r.nearest? s =
      let unit := 10 ^ (-s).toNat * 2 ^ r.quarter.toNat
      let step := 10 ^ s.toNat * 2 ^ (-r.quarter).toNat
      let below := r.mid * unit / step
      match r.covers s below, r.covers s (below + 1) with
      | true, true =>
        if r.mid * unit - below * step < (below + 1) * step - r.mid * unit then some below
        else if (below + 1) * step - r.mid * unit < r.mid * unit - below * step then some (below + 1)
        else some (if below % 2 = 0 then below else below + 1)
      | true, false => some below
      | false, true => some (below + 1)
      | false, false => none := rfl

theorem Neighbourhood.holds_of_nearest {r : Neighbourhood} {s : Int} {c : Nat}
    (h : r.nearest? s = some c) : r.Holds (c * 10 ^ s) := by
  rw [nearest?_eq] at h
  rw [← covers_iff]
  simp only at h
  split at h
  · next hb ha =>
    split at h
    · rwa [← Option.some.inj h]
    · split at h
      · rwa [← Option.some.inj h]
      · rw [← Option.some.inj h]
        split
        · exact hb
        · exact ha
  · next hb _ => rwa [← Option.some.inj h]
  · next ha => rwa [← Option.some.inj h]
  · cases h


/-! ## Seventeen digits -/

theorem digitCount_bounds {n : Nat} (h : 0 < n) :
    10 ^ (digitCount n - 1) ≤ n ∧ n < 10 ^ digitCount n ∧ 0 < digitCount n := by
  have hpos : 0 < digitCount n := Nat.length_toDigits_pos
  refine ⟨?_, (Nat.length_toDigits_le_iff (by decide) hpos).1 le_rfl, hpos⟩
  by_contra hlt
  rcases Nat.eq_zero_or_pos (digitCount n - 1) with hz | hz
  · rw [hz] at hlt
    omega
  · have := (Nat.length_toDigits_le_iff (b := 10) (by decide) hz).2 (not_le.1 hlt)
    change digitCount n ≤ _ at this
    omega

/-- The decade of a quotient is not above it. -/
theorem pow_decade_le {num den : Nat} (hn : 0 < num) (hd : 0 < den) :
    (10 : ℚ) ^ (decade num den - 1) ≤ num / den := by
  have hd' : (0 : ℚ) < den := by exact_mod_cast hd
  rw [le_div_iff₀ hd']
  unfold decade
  split
  · next h =>
    obtain ⟨hle, -, hpos⟩ := digitCount_bounds (Nat.div_pos h hd)
    have hexp : (digitCount (num / den) : Int) - 1 = (digitCount (num / den) - 1 : Nat) := by omega
    rw [hexp, zpow_natCast]
    exact_mod_cast (Nat.mul_le_mul_right den hle).trans (Nat.div_mul_le_self num den)
  · next h =>
    have hone : 0 < (den - 1) / num := Nat.div_pos (by omega) hn
    obtain ⟨-, hlt, -⟩ := digitCount_bounds hone
    have hlt := (Nat.div_lt_iff_lt_mul hn).1 hlt
    have hexp : 1 - (digitCount ((den - 1) / num) : Int) - 1 =
        -(digitCount ((den - 1) / num) : Int) := by
      omega
    rw [hexp, zpow_neg, zpow_natCast, inv_mul_le_iff₀ (by positivity)]
    exact_mod_cast (show den ≤ 10 ^ digitCount ((den - 1) / num) * num by omega)

variable {d : Double}

theorem mantissa_pos (hz : d.isZero = false) : 0 < d.mantissa := by
  unfold isZero at hz
  unfold mantissa exponentWeight
  split
  · next he =>
    rw [he] at hz
    simp at hz
    omega
  · omega

theorem mantissa_lt (d : Double) : d.mantissa < 2 * exponentWeight := by
  have : d.fractionBits < exponentWeight := Nat.mod_lt _ (by decide)
  unfold mantissa
  split <;> omega

/-- The lower end is three quarters of a place below the upper one only for a power of two. -/
theorem low_cases (d : Double) :
    d.neighbourhood.low = 4 * d.mantissa - 2 ∨
      d.neighbourhood.low = 4 * d.mantissa - 1 ∧ d.mantissa = exponentWeight ∧ 1 < d.exponentBits := by
  unfold neighbourhood
  simp only
  split
  · next h => exact .inr ⟨rfl, h⟩
  · exact .inl rfl

/-- The reals that round to a number lie around it. -/
theorem low_lt_mid (hz : d.isZero = false) : d.neighbourhood.low < d.neighbourhood.mid := by
  have := mantissa_pos hz
  show _ < 4 * d.mantissa
  rcases low_cases d with h | ⟨h, -⟩ <;> omega

theorem holds_of_le_mid {x : ℚ} (hlow : d.neighbourhood.low * 2 ^ d.neighbourhood.quarter < x)
    (hmid : x ≤ d.neighbourhood.mid * 2 ^ d.neighbourhood.quarter) : d.neighbourhood.Holds x := by
  have hpos : (0 : ℚ) < 2 ^ d.neighbourhood.quarter := by positivity
  have hhigh : (d.neighbourhood.mid : ℚ) < d.neighbourhood.high := by
    exact_mod_cast (show 4 * d.mantissa < 4 * d.mantissa + 2 by omega)
  have hlt := hmid.trans_lt (mul_lt_mul_of_pos_right hhigh hpos)
  refine ⟨hlow.le, hlt.le, ?_⟩
  rintro (he | he)
  · exact absurd he hlow.ne'
  · exact absurd he hlt.ne

theorem holds_of_mid_lt (hz : d.isZero = false) {x : ℚ}
    (hmid : d.neighbourhood.mid * 2 ^ d.neighbourhood.quarter < x)
    (hhigh : x < d.neighbourhood.high * 2 ^ d.neighbourhood.quarter) : d.neighbourhood.Holds x := by
  have hpos : (0 : ℚ) < 2 ^ d.neighbourhood.quarter := by positivity
  have hlow : (d.neighbourhood.low : ℚ) < d.neighbourhood.mid := by exact_mod_cast low_lt_mid hz
  have hlt := (mul_lt_mul_of_pos_right hlow hpos).trans hmid
  refine ⟨hlt.le, hhigh.le, ?_⟩
  rintro (he | he)
  · exact absurd he hlt.ne'
  · exact absurd he hhigh.ne

/-- If no multiple of a power of ten rounds to a number, then the reals that do fit between two of
them. -/
theorem width_le_of_nearest {s : Int} (hz : d.isZero = false)
    (h : d.neighbourhood.nearest? s = none) :
    ((d.neighbourhood.high : ℚ) - d.neighbourhood.low) * 2 ^ d.neighbourhood.quarter ≤ 10 ^ s := by
  rw [Neighbourhood.nearest?_eq] at h
  set q := d.neighbourhood.quarter with hq
  set below := d.neighbourhood.mid * (10 ^ (-s).toNat * 2 ^ q.toNat) /
    (10 ^ s.toNat * 2 ^ (-q).toNat) with hbelow
  have hle : (below : ℚ) * 10 ^ s ≤ d.neighbourhood.mid * 2 ^ q := by
    have := Nat.div_mul_le_self (d.neighbourhood.mid * (10 ^ (-s).toNat * 2 ^ q.toNat))
      (10 ^ s.toNat * 2 ^ (-q).toNat)
    rw [← hbelow, ← @Nat.cast_le ℚ, cast_unit, cast_step] at this
    exact (mul_le_mul_iff_left₀ (scale_pos q s)).1 this
  have hlt : (d.neighbourhood.mid : ℚ) * 2 ^ q < (below + 1 : Nat) * 10 ^ s := by
    have := Nat.lt_div_mul_add (a := d.neighbourhood.mid * (10 ^ (-s).toNat * 2 ^ q.toNat))
      (b := 10 ^ s.toNat * 2 ^ (-q).toNat) (by positivity)
    rw [← hbelow, ← Nat.succ_mul, ← @Nat.cast_lt ℚ, cast_unit, cast_step] at this
    exact (mul_lt_mul_iff_left₀ (scale_pos q s)).1 this
  have hout : ¬ d.neighbourhood.Holds (below * 10 ^ s) ∧
      ¬ d.neighbourhood.Holds ((below + 1 : Nat) * 10 ^ s) := by
    rw [← Neighbourhood.covers_iff, ← Neighbourhood.covers_iff, Bool.not_eq_true,
      Bool.not_eq_true]
    simp only at h
    split at h
    · split at h
      · cases h
      · split at h <;> cases h
    · cases h
    · cases h
    · next hb ha => exact ⟨hb, ha⟩
  have hlow : (below : ℚ) * 10 ^ s ≤ d.neighbourhood.low * 2 ^ q :=
    not_lt.1 fun hl => hout.1 (holds_of_le_mid hl hle)
  have hhigh : (d.neighbourhood.high : ℚ) * 2 ^ q ≤ (below + 1 : Nat) * 10 ^ s :=
    not_lt.1 fun hh => hout.2 (holds_of_mid_lt hz hlt hh)
  push_cast at hhigh
  linarith

/-- The decade in which the search for the shortest decimal starts. -/
def startDecade (d : Double) : Int :=
  decade (d.neighbourhood.mid * Nat.pow 2 d.neighbourhood.quarter.toNat)
    (Nat.pow 2 (-d.neighbourhood.quarter).toNat)

theorem pow_startDecade_le (hz : d.isZero = false) :
    (10 : ℚ) ^ (d.startDecade - 1) ≤ d.neighbourhood.mid * 2 ^ d.neighbourhood.quarter := by
  have hmid : 0 < d.neighbourhood.mid := Nat.zero_lt_of_lt (low_lt_mid hz)
  refine (pow_decade_le (Nat.mul_pos hmid (Nat.two_pow_pos _)) (Nat.two_pow_pos _)).trans_eq ?_
  have hden : (0 : ℚ) < (2 ^ (-d.neighbourhood.quarter).toNat : Nat) := by positivity
  show ((d.neighbourhood.mid * 2 ^ d.neighbourhood.quarter.toNat : Nat) : ℚ) /
    (2 ^ (-d.neighbourhood.quarter).toNat : Nat) = _
  rw [div_eq_iff hden.ne', Nat.cast_mul, pow_toNat 2 (by decide) d.neighbourhood.quarter]
  push_cast
  ring

/-- One of the two multiples of the seventeenth place around a number rounds to it. -/
theorem nearest?_ne_none (hz : d.isZero = false) :
    d.neighbourhood.nearest? (d.startDecade - 17) ≠ none := by
  intro h
  have htwo : (0 : ℚ) < 2 ^ d.neighbourhood.quarter := by positivity
  have hplaces : (10 : ℚ) ^ (d.startDecade - 1) = 10 ^ 16 * 10 ^ (d.startDecade - 17) := by
    rw [← zpow_natCast, ← zpow_add₀ (by norm_num)]
    congr 1
    omega
  have hvalue := pow_startDecade_le hz
  have hstep := width_le_of_nearest hz h
  have hwide : ((d.neighbourhood.high : ℚ) - d.neighbourhood.low) * 10 ^ 16 ≤
      d.neighbourhood.mid := by
    refine (mul_le_mul_iff_left₀ htwo).1 ?_
    linarith
  have hm := mantissa_lt d
  have hpos := mantissa_pos hz
  have hhigh : d.neighbourhood.high = 4 * d.mantissa + 2 := rfl
  have hmid : d.neighbourhood.mid = 4 * d.mantissa := rfl
  rw [hhigh, hmid] at hwide
  -- four quarters of the last place, or three above a power of two, are more than the step
  rcases low_cases d with hl | ⟨hl, hweight, -⟩
  · rw [hl, Nat.cast_sub (by omega)] at hwide
    have : 4 * 10 ^ 16 ≤ 4 * d.mantissa := by
      have := hwide
      push_cast at this
      exact_mod_cast (show ((4 * 10 ^ 16 : Nat) : ℚ) ≤ 4 * d.mantissa by push_cast; linarith)
    unfold exponentWeight at hm
    omega
  · rw [hl, Nat.cast_sub (by omega), hweight] at hwide
    unfold exponentWeight at hwide
    norm_num at hwide

theorem shortest_eq (d : Double) :
    d.shortest = ((List.range 17).findSome? fun i =>
      (d.neighbourhood.nearest? (d.startDecade - (i + 1 : Nat))).map fun c =>
        (c, d.startDecade - (i + 1 : Nat))).getD (d.mantissa, 0) := rfl

/-- The shortest decimal of a number rounds to it. -/
theorem holds_shortest (hz : d.isZero = false) :
    d.neighbourhood.Holds (d.shortest.1 * 10 ^ d.shortest.2) := by
  rw [shortest_eq]
  cases hf : (List.range 17).findSome? fun i =>
      (d.neighbourhood.nearest? (d.startDecade - (i + 1 : Nat))).map fun c =>
        (c, d.startDecade - (i + 1 : Nat)) with
  | none =>
    have := List.findSome?_eq_none_iff.1 hf 16 (by simp)
    exact absurd (Option.map_eq_none_iff.1 this) (nearest?_ne_none hz)
  | some p =>
    obtain ⟨i, -, hp⟩ := List.exists_of_findSome?_eq_some hf
    obtain ⟨c, hc, rfl⟩ := Option.map_eq_some_iff.1 hp
    exact Neighbourhood.holds_of_nearest hc

/-! ## Different numbers -/

/-- A number that is neither negative nor infinite nor NaN. -/
structure Unsigned (d : Double) : Prop where
  finite : d.isFinite = true
  positive : d.negative = false

theorem Unsigned.bits (h : Unsigned d) :
    d.bits.toNat = d.exponentBits * exponentWeight + d.fractionBits := by
  have := h.positive
  unfold negative signWeight at this
  unfold exponentBits fractionBits exponentWeight
  simp at this
  omega

theorem Unsigned.isNaN (h : Unsigned d) : d.isNaN = false := by
  have := h.finite
  unfold isFinite at this
  unfold Double.isNaN
  simp at this ⊢
  simp [this]

theorem exponent_eq (d : Double) : d.exponent = (max d.exponentBits 1 : Nat) - 1075 := by
  unfold exponent
  split <;> omega

/-- The ends of two neighbourhoods in quarters of the last place of the smaller number. -/
theorem exists_high_le_low {a b : Double} (ha : Unsigned a) (hb : Unsigned b)
    (h : a.bits.toNat < b.bits.toNat) :
    ∃ t : Nat, b.neighbourhood.quarter = a.neighbourhood.quarter + t ∧
      a.neighbourhood.high ≤ b.neighbourhood.low * 2 ^ t ∧
      (a.neighbourhood.closed = true → b.neighbourhood.closed = true →
        a.neighbourhood.high ≠ b.neighbourhood.low * 2 ^ t) := by
  have hfa : a.fractionBits < exponentWeight := Nat.mod_lt _ (by decide)
  have hfb : b.fractionBits < exponentWeight := Nat.mod_lt _ (by decide)
  rw [ha.bits, hb.bits] at h
  have hle : a.exponentBits ≤ b.exponentBits := by
    by_contra hlt
    have := Nat.mul_le_mul_right exponentWeight (show b.exponentBits + 1 ≤ a.exponentBits by omega)
    rw [Nat.succ_mul] at this
    omega
  have hqa : a.neighbourhood.quarter = a.exponent - 2 := rfl
  have hqb : b.neighbourhood.quarter = b.exponent - 2 := rfl
  have hhigh : a.neighbourhood.high = 4 * a.mantissa + 2 := rfl
  have hlow : b.neighbourhood.low =
      if b.mantissa = exponentWeight ∧ 1 < b.exponentBits then 4 * b.mantissa - 1
      else 4 * b.mantissa - 2 := rfl
  have hca : a.neighbourhood.closed = true → a.mantissa % 2 = 0 := eq_of_beq
  have hcb : b.neighbourhood.closed = true → b.mantissa % 2 = 0 := eq_of_beq
  rw [hqa, hqb, exponent_eq, exponent_eq, hhigh, hlow]
  have hma : a.mantissa = if a.exponentBits = 0 then a.fractionBits
    else exponentWeight + a.fractionBits := rfl
  have hmb : b.mantissa = if b.exponentBits = 0 then b.fractionBits
    else exponentWeight + b.fractionBits := rfl
  by_cases hexp : max a.exponentBits 1 = max b.exponentBits 1
  · -- one last place: the mantissas differ
    have hlt : a.mantissa < b.mantissa := by
      rw [hma, hmb]
      rcases Nat.lt_or_eq_of_le hle with hlt | heq
      · rw [if_pos (by omega), if_neg (by omega)]
        omega
      · rw [heq] at h ⊢
        split <;> omega
    refine ⟨0, by omega, ?_, fun hac hbc => ?_⟩
    · split <;> omega
    · have := hca hac
      have := hcb hbc
      split <;> omega
  · -- the larger number has a full mantissa and a last place at least twice as large
    have hfull : b.mantissa = exponentWeight + b.fractionBits := by
      rw [hmb, if_neg (by omega)]
    have hmax : a.mantissa < 2 * exponentWeight := mantissa_lt a
    obtain ⟨t, ht⟩ := Nat.exists_eq_add_of_lt
      (show max a.exponentBits 1 < max b.exponentBits 1 by omega)
    have htwo : 2 ≤ 2 ^ (t + 1) := by
      rw [Nat.pow_succ]
      have := Nat.two_pow_pos t
      omega
    have hlow' : 4 * exponentWeight - 1 ≤ (if b.mantissa = exponentWeight ∧ 1 < b.exponentBits then
        4 * b.mantissa - 1 else 4 * b.mantissa - 2) := by
      split <;> omega
    have hprod := Nat.mul_le_mul hlow' htwo
    have hweight : 0 < exponentWeight := by decide
    refine ⟨t + 1, by omega, by omega, fun hac _ => ?_⟩
    have := hca hac
    omega

/-- The upper end of what rounds to a number is not above the lower end of what rounds to a larger
one; they are the same end only for neighbours, of which one has an odd mantissa. -/
theorem high_le_low {a b : Double} (ha : Unsigned a) (hb : Unsigned b)
    (h : a.bits.toNat < b.bits.toNat) :
    (a.neighbourhood.high : ℚ) * 2 ^ a.neighbourhood.quarter ≤
        b.neighbourhood.low * 2 ^ b.neighbourhood.quarter ∧
      (a.neighbourhood.closed = true → b.neighbourhood.closed = true →
        (a.neighbourhood.high : ℚ) * 2 ^ a.neighbourhood.quarter ≠
          b.neighbourhood.low * 2 ^ b.neighbourhood.quarter) := by
  obtain ⟨t, ht, hle, hne⟩ := exists_high_le_low ha hb h
  have hpos : (0 : ℚ) < 2 ^ a.neighbourhood.quarter := by positivity
  have hlow : (b.neighbourhood.low : ℚ) * 2 ^ b.neighbourhood.quarter =
      ((b.neighbourhood.low * 2 ^ t : Nat) : ℚ) * 2 ^ a.neighbourhood.quarter := by
    rw [ht, zpow_add₀ (by norm_num), zpow_natCast]
    push_cast
    ring
  rw [hlow]
  refine ⟨mul_le_mul_of_nonneg_right (by exact_mod_cast hle) hpos.le, fun hac hbc he => ?_⟩
  exact hne hac hbc (by exact_mod_cast mul_right_cancel₀ hpos.ne' he)

/-- No real rounds to two numbers. -/
theorem eq_of_holds {a b : Double} (ha : Unsigned a) (hb : Unsigned b) {x : ℚ}
    (hxa : a.neighbourhood.Holds x) (hxb : b.neighbourhood.Holds x) : a = b := by
  have apart {a b : Double} (ha : Unsigned a) (hb : Unsigned b) (hxa : a.neighbourhood.Holds x)
      (hxb : b.neighbourhood.Holds x) : ¬ a.bits.toNat < b.bits.toNat := by
    intro h
    obtain ⟨hle, hne⟩ := high_le_low ha hb h
    have hhigh : x = a.neighbourhood.high * 2 ^ a.neighbourhood.quarter :=
      le_antisymm hxa.upper (hle.trans hxb.lower)
    have hlow : x = b.neighbourhood.low * 2 ^ b.neighbourhood.quarter :=
      le_antisymm (hxa.upper.trans hle) hxb.lower
    exact hne (hxa.closed (.inr hhigh)) (hxb.closed (.inl hlow)) (hhigh.symm.trans hlow)
  have hbits : a.bits.toNat = b.bits.toNat :=
    Nat.le_antisymm (not_lt.1 (apart hb ha hxb hxa)) (not_lt.1 (apart ha hb hxa hxb))
  cases a
  cases b
  exact congrArg Double.mk (UInt64.toNat_inj.1 hbits)

theorem holds_pos (hz : d.isZero = false) {x : ℚ} (h : d.neighbourhood.Holds x) : 0 < x := by
  have hlow : 0 < d.neighbourhood.low := by
    have := mantissa_pos hz
    rcases low_cases d with hl | ⟨hl, -⟩ <;> omega
  have hq : (0 : ℚ) < 2 ^ d.neighbourhood.quarter := by positivity
  exact (mul_pos (by exact_mod_cast hlow) hq).trans_le h.lower

end ShapeSchema.Double
