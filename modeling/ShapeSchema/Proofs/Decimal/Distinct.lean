import ShapeSchema.Proofs.Decimal.Exact
import ShapeSchema.Proofs.Decimal.Nearest

/-!
# Different numbers are written differently

The text of a number has the value of its shortest decimal (`textValue_text`), which rounds to that
number only. So numbers with one text are one number (`Unsigned.eq_of_text`).
-/

namespace ShapeSchema.Double

variable {d : Double}

/-! ## The value of a text -/

/-- The whole number of an exponent's text. -/
def exponentValue (cs : List Char) : Int :=
  let (neg, ds) := Decimal.takeSign cs
  let n : Int := Decimal.natOfDigits 10 ds
  if neg then -n else n

/-- The value of an unsigned decimal with or without a point and an exponent. -/
def textValue (cs : List Char) : ℚ :=
  let body := cs.takeWhile (· != 'e')
  let part := (body.dropWhile (· != '.')).drop 1
  Decimal.natOfDigits 10 (body.takeWhile (· != '.') ++ part) *
    10 ^ (exponentValue ((cs.dropWhile (· != 'e')).drop 1) - part.length)

theorem natOfDigits_append (as bs : List Char) :
    Decimal.natOfDigits 10 (as ++ bs) =
      Decimal.natOfDigits 10 as * 10 ^ bs.length + Decimal.natOfDigits 10 bs := by
  have shift (n : Nat) (cs : List Char) :
      cs.foldl (fun n c => n * 10 + (Decimal.digitValue? 10 c).getD 0) n =
        n * 10 ^ cs.length + Decimal.natOfDigits 10 cs := by
    unfold Decimal.natOfDigits
    induction cs generalizing n with
    | nil => simp
    | cons c cs ih =>
      rw [List.foldl_cons, List.foldl_cons, ih, ih (0 * 10 + _), List.length_cons]
      ring
  unfold Decimal.natOfDigits
  rw [List.foldl_append]
  exact shift _ bs

theorem natOfDigits_zeros (n : Nat) : Decimal.natOfDigits 10 (zeros n) = 0 := by
  unfold zeros
  induction n with
  | zero => rfl
  | succ n ih =>
    rw [List.replicate_succ, ← List.singleton_append, natOfDigits_append, ih]
    exact Nat.zero_mul _

/-- Digits, then perhaps a point with digits, then perhaps an exponent. -/
def decimalText (whole : List Char) (part tail : Option (List Char)) : List Char :=
  whole ++ part.elim [] ('.' :: ·) ++ tail.elim [] ('e' :: ·)

theorem textValue_decimalText {whole : List Char} {part : Option (List Char)}
    (hw : ∀ c ∈ whole, c.isDigit = true) (hp : ∀ cs ∈ part, ∀ c ∈ cs, c.isDigit = true)
    (tail : Option (List Char)) :
    textValue (decimalText whole part tail) =
      Decimal.natOfDigits 10 (whole ++ part.getD []) *
        10 ^ (exponentValue (tail.getD []) - (part.getD []).length) := by
  have hne {ds : List Char} (hds : ∀ c ∈ ds, c.isDigit = true) {x : Char}
      (hx : x.isDigit = false) : ∀ c ∈ ds, (c != x) = true := by
    intro c hc
    rw [bne_iff_ne]
    rintro rfl
    rw [hds c hc] at hx
    cases hx
  have hbody : ∀ c ∈ whole ++ part.elim [] ('.' :: ·), (c != 'e') = true := by
    intro c hc
    rcases List.mem_append.1 hc with hc | hc
    · exact hne hw (by decide) c hc
    · cases part with
      | none => simp at hc
      | some p =>
        rcases List.mem_cons.1 hc with rfl | hc
        · rfl
        · exact hne (hp p rfl) (by decide) c hc
  have htake : (decimalText whole part tail).takeWhile (· != 'e') =
      whole ++ part.elim [] ('.' :: ·) := by
    unfold decimalText
    rw [List.takeWhile_append_of_pos hbody]
    cases tail <;> simp
  have hdrop : ((decimalText whole part tail).dropWhile (· != 'e')).drop 1 = tail.getD [] := by
    unfold decimalText
    rw [List.dropWhile_append_of_pos hbody]
    cases tail <;> simp
  have hdigits := hne hw (x := '.') (by decide)
  have htake' : (whole ++ part.elim [] ('.' :: ·)).takeWhile (· != '.') = whole := by
    rw [List.takeWhile_append_of_pos hdigits]
    cases part <;> simp
  have hdrop' : ((whole ++ part.elim [] ('.' :: ·)).dropWhile (· != '.')).drop 1 = part.getD [] := by
    rw [List.dropWhile_append_of_pos hdigits]
    cases part <;> simp
  unfold textValue
  simp only [htake, hdrop, htake', hdrop']

theorem exponentValue_sign (e : Int) :
    exponentValue ((if e < 0 then '-' else '+') :: Nat.toDigits 10 e.natAbs) = e := by
  by_cases h : e < 0
  · rw [if_pos h]
    show -(Decimal.natOfDigits 10 (Nat.toDigits 10 e.natAbs) : Int) = e
    rw [Decimal.natOfDigits_toDigits]
    omega
  · rw [if_neg h]
    show (Decimal.natOfDigits 10 (Nat.toDigits 10 e.natAbs) : Int) = e
    rw [Decimal.natOfDigits_toDigits]
    omega

/-- The text that is laid out for digits, by its parts. -/
theorem layOut_eq (ds : List Char) (hne : ds ≠ []) (point : Int) :
    ∃ whole part tail, layOut ds point = decimalText whole part tail ∧
      (∀ c ∈ whole ++ part.getD [], c ∈ ds ∨ c = '0') ∧
      (∀ c ∈ tail.getD [], c.isDigit = true ∨ c = '+' ∨ c = '-') ∧
      (Decimal.natOfDigits 10 (whole ++ part.getD []) : ℚ) *
          10 ^ (exponentValue (tail.getD []) - (part.getD []).length) =
        Decimal.natOfDigits 10 ds * 10 ^ (point - ds.length) := by
  have hlen (n : Nat) : (zeros n).length = n := List.length_replicate
  have hzero (n : Nat) : ∀ c ∈ zeros n, c = '0' := fun _ => List.eq_of_mem_replicate
  have hnone : exponentValue [] = 0 := rfl
  unfold layOut
  simp only
  split
  · next h =>
    -- zeros fill the places up to the point
    refine ⟨ds ++ zeros (point - ds.length).toNat, none, none, by simp [decimalText], ?_, by simp, ?_⟩
    · simp only [Option.getD_none, List.append_nil, List.mem_append]
      exact fun c hc => hc.imp id (hzero _ c)
    · have hz : point - ds.length = ((point - ds.length).toNat : Int) := by omega
      simp only [Option.getD_none, List.append_nil, hnone, List.length_nil]
      rw [natOfDigits_append, natOfDigits_zeros, hlen, hz, zpow_natCast]
      simp
  · split
    · next h =>
      -- the point stands among the digits
      refine ⟨ds.take point.toNat, some (ds.drop point.toNat), none, by simp [decimalText], ?_,
        by simp, ?_⟩
      · simp only [Option.getD_some, List.take_append_drop]
        exact fun c => .inl
      · have hdrop : ((ds.drop point.toNat).length : Int) = ds.length - point := by
          rw [List.length_drop]
          omega
        simp only [Option.getD_some, Option.getD_none, List.take_append_drop, hnone, hdrop]
        congr 2
        omega
    · split
      · next h =>
        -- the point stands in front of the digits
        refine ⟨['0'], some (zeros (-point).toNat ++ ds), none, by simp [decimalText], ?_,
          by simp, ?_⟩
        · simp only [Option.getD_some, List.mem_append, List.mem_singleton]
          rintro c (hc | hc | hc)
          · exact .inr hc
          · exact .inr (hzero _ c hc)
          · exact .inl hc
        · simp only [Option.getD_some, Option.getD_none, hnone, List.length_append, hlen]
          have hdigits : Decimal.natOfDigits 10 (['0'] ++ (zeros (-point).toNat ++ ds)) =
              Decimal.natOfDigits 10 ds := by
            rw [show ['0'] = zeros 1 from rfl, natOfDigits_append, natOfDigits_append,
              natOfDigits_zeros, natOfDigits_zeros]
            simp
          rw [hdigits]
          congr 2
          push_cast
          omega
      · -- one digit stands before the point, and an exponent follows
        set tail := (if point - 1 < 0 then '-' else '+') :: Nat.toDigits 10 (point - 1).natAbs
        have htail : exponentValue tail = point - 1 := exponentValue_sign (point - 1)
        have hchars : ∀ c ∈ tail, c.isDigit = true ∨ c = '+' ∨ c = '-' := by
          intro c hc
          rcases List.mem_cons.1 hc with rfl | hc
          · split <;> simp
          · exact .inl (Decimal.isDigit_of_mem_toDigits hc)
        cases ds with
        | nil => exact absurd rfl hne
        | cons c cs =>
          cases cs with
          | nil =>
            refine ⟨[c], none, some tail, by simp [decimalText, tail], by simp, hchars, ?_⟩
            simp [htail]
          | cons c' cs =>
            refine ⟨[c], some (c' :: cs), some tail, by simp [decimalText, tail], ?_, hchars, ?_⟩
            · simp only [Option.getD_some, List.singleton_append]
              exact fun x => .inl
            · simp only [Option.getD_some, List.singleton_append, htail, List.length_cons]
              congr 2
              push_cast
              omega

/-- The text of a positive number is laid out for digits that have the value of its shortest
decimal. -/
theorem exists_text_eq (h : Unsigned d) (hz : d.isZero = false) :
    ∃ whole part tail, d.text.toList = decimalText whole part tail ∧
      (∀ c ∈ whole ++ part.getD [], c.isDigit = true) ∧
      (∀ c ∈ tail.getD [], c.isDigit = true ∨ c = '+' ∨ c = '-') ∧
      (Decimal.natOfDigits 10 (whole ++ part.getD []) : ℚ) *
          10 ^ (exponentValue (tail.getD []) - (part.getD []).length) =
        d.shortest.1 * 10 ^ d.shortest.2 := by
  set all := Nat.toDigits 10 d.shortest.1
  set ds := (all.reverse.dropWhile (· == '0')).reverse
  have hstrip : ds ++ zeros (all.length - ds.length) = all := strip_zeros all
  have hlen := congrArg List.length hstrip
  rw [List.length_append, show (zeros (all.length - ds.length)).length = all.length - ds.length from
    List.length_replicate] at hlen
  have hvalue := congrArg (Decimal.natOfDigits 10) hstrip
  rw [natOfDigits_append, natOfDigits_zeros, Decimal.natOfDigits_toDigits,
    show (zeros (all.length - ds.length)).length = all.length - ds.length from
      List.length_replicate] at hvalue
  have hdigit : ∀ c ∈ ds, c.isDigit = true := fun c hc =>
    Decimal.isDigit_of_mem_toDigits (hstrip ▸ List.mem_append_left _ hc)
  have hpos : 0 < d.shortest.1 := by
    have := holds_pos hz (holds_shortest hz)
    exact_mod_cast pos_of_mul_pos_left this (by positivity)
  have hne : ds ≠ [] := by
    intro he
    rw [he] at hvalue
    simp [Decimal.natOfDigits] at hvalue
    omega
  obtain ⟨whole, part, tail, htext, hchars, htail, hval⟩ :=
    layOut_eq ds hne (all.length + d.shortest.2)
  refine ⟨whole, part, tail, ?_, ?_, htail, ?_⟩
  · rw [← htext]
    unfold text
    rw [h.isNaN, h.finite, hz, h.positive]
    simp only [Bool.false_eq_true, if_false, Bool.not_true, String.toList_ofList]
    rfl
  · intro c hc
    rcases hchars c hc with hc | rfl
    · exact hdigit c hc
    · decide
  · rw [hval, ← hvalue]
    have hexp : (all.length : Int) + d.shortest.2 - ds.length =
        (all.length - ds.length : Nat) + d.shortest.2 := by omega
    rw [hexp, zpow_add₀ (by norm_num), zpow_natCast]
    push_cast
    ring

theorem textValue_text (h : Unsigned d) (hz : d.isZero = false) :
    textValue d.text.toList = d.shortest.1 * 10 ^ d.shortest.2 := by
  obtain ⟨whole, part, tail, htext, hdigits, -, hval⟩ := exists_text_eq h hz
  rw [htext, ← hval]
  refine textValue_decimalText (fun c hc => hdigits c (List.mem_append_left _ hc)) ?_ tail
  rintro cs hcs c hc
  refine hdigits c (List.mem_append_right _ ?_)
  rwa [Option.mem_def.1 hcs]

theorem Unsigned.text_of_zero (h : Unsigned d) (hz : d.isZero = true) : d.text = "0" := by
  unfold text
  rw [h.isNaN, h.finite, hz]
  rfl

theorem Unsigned.eq_zero (h : Unsigned d) (hz : d.isZero = true) : d.bits.toNat = 0 := by
  rw [h.bits]
  unfold isZero at hz
  simp at hz
  rw [hz.1, hz.2, Nat.zero_mul]

/-- A positive number is not written like zero. -/
theorem text_ne_zero (h : Unsigned d) (hz : d.isZero = false) : d.text ≠ "0" := by
  intro he
  have hvalue := textValue_text h hz
  have hdigit : Decimal.natOfDigits 10 ['0'] = 0 := natOfDigits_zeros 1
  have hzero : textValue "0".toList = 0 := by simp [textValue, hdigit]
  rw [he, hzero] at hvalue
  have := holds_pos hz (holds_shortest hz)
  rw [← hvalue] at this
  exact lt_irrefl _ this

/-- Numbers that are written alike are the same number. -/
theorem Unsigned.eq_of_text {a b : Double} (ha : Unsigned a) (hb : Unsigned b)
    (h : a.text = b.text) : a = b := by
  cases hza : a.isZero with
  | true =>
    cases hzb : b.isZero with
    | true =>
      have hbits := (ha.eq_zero hza).trans (hb.eq_zero hzb).symm
      cases a
      cases b
      exact congrArg Double.mk (UInt64.toNat_inj.1 hbits)
    | false => exact absurd (h.symm.trans (ha.text_of_zero hza)) (text_ne_zero hb hzb)
  | false =>
    cases hzb : b.isZero with
    | true => exact absurd (h.trans (hb.text_of_zero hzb)) (text_ne_zero ha hza)
    | false =>
      refine eq_of_holds ha hb (holds_shortest hza) ?_
      rw [← textValue_text ha hza, h, textValue_text hb hzb]
      exact holds_shortest hzb

theorem Unsigned.mem_text (h : Unsigned d) {c : Char} (hc : c ∈ d.text.toList) :
    c.isDigit = true ∨ c = '.' ∨ c = 'e' ∨ c = '+' ∨ c = '-' := by
  cases hz : d.isZero with
  | true =>
    rw [h.text_of_zero hz] at hc
    have : c = '0' := by simpa using hc
    rw [this]
    decide
  | false =>
    obtain ⟨whole, part, tail, htext, hdigits, htail, -⟩ := exists_text_eq h hz
    rw [htext] at hc
    unfold decimalText at hc
    rcases List.mem_append.1 hc with hc | hc
    · rcases List.mem_append.1 hc with hc | hc
      · exact .inl (hdigits c (List.mem_append_left _ hc))
      · cases part with
        | none => simp at hc
        | some p =>
          rcases List.mem_cons.1 hc with rfl | hc
          · exact .inr (.inl rfl)
          · exact .inl (hdigits c (List.mem_append_right _ hc))
    · cases tail with
      | none => simp at hc
      | some t =>
        rcases List.mem_cons.1 hc with rfl | hc
        · exact .inr (.inr (.inl rfl))
        · rcases htail c hc with hd | rfl | rfl
          · exact .inl hd
          · exact .inr (.inr (.inr (.inl rfl)))
          · exact .inr (.inr (.inr (.inr rfl)))

end ShapeSchema.Double
