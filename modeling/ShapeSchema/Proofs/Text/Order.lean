import Mathlib.Data.List.Basic
import ShapeSchema.Text.Units

/-!
# The order of texts

Texts are ordered by their code units. Different texts have different code units (`units_inj`), so
that the order is a linear one: of two texts one comes before the other or they are the same
(`lt_of_le_of_ne`).
-/

namespace ShapeSchema.Text

/-- The first code unit of a character says how many there are, and which character it is. -/
theorem unitsOfPoint_append_inj {c d : Char} {us vs : Units}
    (h : unitsOfPoint c.toNat ++ us = unitsOfPoint d.toNat ++ vs) : c = d ∧ us = vs := by
  have hc : c.toNat < 0xD800 ∨ (0xDFFF < c.toNat ∧ c.toNat < 0x110000) := c.valid
  have hd : d.toNat < 0xD800 ∨ (0xDFFF < d.toNat ∧ d.toNat < 0x110000) := d.valid
  have hsame : c.toNat = d.toNat ∧ us = vs := by
    unfold unitsOfPoint at h
    split at h <;> split at h <;>
      simp only [List.cons_append, List.nil_append, List.cons.injEq] at h
    · exact h
    · omega
    · omega
    · exact ⟨by omega, h.2.2⟩
  have hchar : c = d := by rw [← Char.ofNat_toNat c, ← Char.ofNat_toNat d, hsame.1]
  exact ⟨hchar, hsame.2⟩

theorem unitsOfPoint_ne_nil (n : Nat) : unitsOfPoint n ≠ [] := by
  unfold unitsOfPoint
  split <;> simp

theorem flatMap_units_inj {cs ds : List Char}
    (h : (cs.flatMap fun c => unitsOfPoint c.toNat) = ds.flatMap fun c => unitsOfPoint c.toNat) :
    cs = ds := by
  induction cs generalizing ds with
  | nil =>
    cases ds with
    | nil => rfl
    | cons d ds => simp [unitsOfPoint_ne_nil] at h
  | cons c cs ih =>
    cases ds with
    | nil => simp [unitsOfPoint_ne_nil] at h
    | cons d ds =>
      rw [List.flatMap_cons, List.flatMap_cons] at h
      obtain ⟨hchar, hrest⟩ := unitsOfPoint_append_inj h
      rw [hchar, ih hrest]

theorem units_inj {a b : String} (h : units a = units b) : a = b :=
  String.toList_inj.1 (flatMap_units_inj h)

theorem lt_iff {a b : String} : lt a b = true ↔ units a < units b := decide_eq_true_iff

theorem le_iff {a b : String} : le a b = true ↔ ¬ units b < units a := by
  unfold le
  rw [Bool.not_eq_true', ← Bool.not_eq_true, lt_iff]

theorem eq_of_le_of_le {a b : String} (hab : le a b = true) (hba : le b a = true) : a = b :=
  units_inj (List.le_antisymm (le_iff.1 hab) (le_iff.1 hba))

theorem lt_of_le_of_ne {a b : String} (hle : le a b = true) (hne : a ≠ b) : lt a b = true := by
  by_contra hlt
  have hle' : le b a = true := by
    unfold le
    rw [Bool.not_eq_true', ← Bool.not_eq_true]
    exact hlt
  exact hne (eq_of_le_of_le hle hle')

theorem lt_trans {a b c : String} (hab : lt a b = true) (hbc : lt b c = true) : lt a c = true :=
  lt_iff.2 (List.lt_trans (lt_iff.1 hab) (lt_iff.1 hbc))

theorem lt_irrefl (a : String) : lt a a = false := by
  rw [← Bool.not_eq_true, lt_iff]
  exact List.lt_irrefl (units a)

theorem le_of_lt {a b : String} (h : lt a b = true) : le a b = true :=
  le_iff.2 (List.lt_asymm (lt_iff.1 h))

theorem le_total (a b : String) : (le a b || le b a) = true := by
  rw [Bool.or_eq_true]
  by_cases h : lt b a = true
  · exact .inr (le_of_lt h)
  · refine .inl ?_
    unfold le
    rw [Bool.not_eq_true', ← Bool.not_eq_true]
    exact h

theorem le_trans {a b c : String} (hab : le a b = true) (hbc : le b c = true) : le a c = true := by
  by_cases h₁ : a = b
  · rw [h₁]
    exact hbc
  by_cases h₂ : b = c
  · rw [← h₂]
    exact hab
  exact le_of_lt (lt_trans (lt_of_le_of_ne hab h₁) (lt_of_le_of_ne hbc h₂))

end ShapeSchema.Text
