import Mathlib.Data.List.Basic

/-!
# Where a text ends

Two texts that are followed by something are the same if it can be told where each of them ends: by
the first character that is not one of theirs (`append_unique`), or by a closing character that is
escaped inside (`flatMap_unique`).
-/

namespace ShapeSchema.Text

/-- A letter, a digit or an underscore; beyond ASCII every character counts as a letter. -/
def isWordChar (c : Char) : Bool := c.isAlphanum || c == '_' || decide (128 ≤ c.toNat)

theorem ne_of_isWordChar {c x : Char} (hc : isWordChar c = true) (hx : isWordChar x = false) :
    c ≠ x := by
  rintro rfl
  rw [hc] at hx
  cases hx

theorem append_unique {p : Char → Bool} {cs ds r s : List Char} (hcs : ∀ c ∈ cs, p c = true)
    (hds : ∀ c ∈ ds, p c = true) (hr : ∀ c ∈ r.head?, p c = false)
    (hs : ∀ c ∈ s.head?, p c = false) (h : cs ++ r = ds ++ s) : cs = ds ∧ r = s := by
  induction cs generalizing ds with
  | nil =>
    cases ds with
    | nil => exact ⟨rfl, h⟩
    | cons d ds =>
      have hd := hr d (by rw [show r = d :: (ds ++ s) from h]; rfl)
      rw [hds d List.mem_cons_self] at hd
      cases hd
  | cons c cs ih =>
    cases ds with
    | nil =>
      have hc := hs c (by rw [show s = c :: (cs ++ r) from h.symm]; rfl)
      rw [hcs c List.mem_cons_self] at hc
      cases hc
    | cons d ds =>
      obtain ⟨rfl, hrest⟩ := List.cons.inj h
      obtain ⟨rfl, rfl⟩ := ih (fun c hc => hcs c (List.mem_cons_of_mem _ hc))
        (fun c hc => hds c (List.mem_cons_of_mem _ hc)) hrest
      exact ⟨rfl, rfl⟩

/-- Escaped characters up to a closing one, if no escape starts with it or with another escape. -/
theorem flatMap_unique {esc : Char → List Char} {close : Char}
    (hclose : ∀ c, ∃ d ds, esc c = d :: ds ∧ d ≠ close)
    (hesc : ∀ c d r s, esc c ++ r = esc d ++ s → c = d ∧ r = s) {cs ds r s : List Char}
    (h : cs.flatMap esc ++ close :: r = ds.flatMap esc ++ close :: s) : cs = ds ∧ r = s := by
  induction cs generalizing ds with
  | nil =>
    cases ds with
    | nil => exact ⟨rfl, (List.cons.inj h).2⟩
    | cons d ds =>
      obtain ⟨e, es, he, hne⟩ := hclose d
      rw [List.flatMap_cons, he] at h
      exact absurd (List.cons.inj h).1.symm hne
  | cons c cs ih =>
    cases ds with
    | nil =>
      obtain ⟨e, es, he, hne⟩ := hclose c
      rw [List.flatMap_cons, he] at h
      exact absurd (List.cons.inj h).1 hne
    | cons d ds =>
      rw [List.flatMap_cons, List.flatMap_cons, List.append_assoc, List.append_assoc] at h
      obtain ⟨rfl, hrest⟩ := hesc c d _ _ h
      obtain ⟨rfl, rfl⟩ := ih hrest
      exact ⟨rfl, rfl⟩

end ShapeSchema.Text
