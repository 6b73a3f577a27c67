import ShapeSchema.Native.Basic

/-!
# Parts of native data

The items of an array or set and the entries of a map or object, each smaller than the whole.
-/

namespace ShapeSchema.Native

/-- The items of an array or set. -/
def items? : Native → Option (List Native)
  | .array items => some items
  | .set items => some items
  | _ => none

/-- The entries of a map or object; an object's keys are texts. -/
def entries? : Native → Option (List (Native × Native))
  | .map es => some es
  | .object ms => some (ms.map fun p => (.text p.1, p.2))
  | _ => none

/-- Is it null or absent? -/
def isNothing : Native → Bool
  | .null => true
  | .absent => true
  | _ => false

theorem sizeOf_item {v x : Native} {items : List Native} (h : v.items? = some items)
    (hx : x ∈ items) : sizeOf x < sizeOf v := by
  cases v with
  | array is =>
    cases h
    have := List.sizeOf_lt_of_mem hx
    simp only [array.sizeOf_spec]
    omega
  | set is =>
    cases h
    have := List.sizeOf_lt_of_mem hx
    simp only [set.sizeOf_spec]
    omega
  | _ => simp [items?] at h

theorem sizeOf_entry {v : Native} {p : Native × Native} {es : List (Native × Native)}
    (h : v.entries? = some es) (hp : p ∈ es) : sizeOf p.1 < sizeOf v ∧ sizeOf p.2 < sizeOf v := by
  cases v with
  | map es' =>
    cases h
    have := List.sizeOf_lt_of_mem hp
    rcases p with ⟨a, b⟩
    simp only [map.sizeOf_spec, Prod.mk.sizeOf_spec] at *
    omega
  | object ms =>
    cases h
    obtain ⟨⟨k, w⟩, hk, rfl⟩ := List.mem_map.1 hp
    have := List.sizeOf_lt_of_mem hk
    simp only [object.sizeOf_spec, text.sizeOf_spec, Prod.mk.sizeOf_spec] at *
    have : 0 < sizeOf w := by cases w <;> simp only [null.sizeOf_spec, absent.sizeOf_spec,
      bool.sizeOf_spec, number.sizeOf_spec, big.sizeOf_spec, text.sizeOf_spec, array.sizeOf_spec,
      set.sizeOf_spec, map.sizeOf_spec, object.sizeOf_spec, builtin.sizeOf_spec] <;> omega
    omega
  | _ => simp [entries?] at h

theorem sizeOf_member {v : Native} {ms : List (String × Native)} (h : v.members? = some ms)
    (key : String) : sizeOf (member ms key) < sizeOf v := by
  cases v with
  | object ms' =>
    cases h
    unfold member Entries.find?
    cases hf : ms.find? fun p => p.1 == key with
    | none =>
      simp only [Option.map_none, Option.getD_none, absent.sizeOf_spec, object.sizeOf_spec]
      cases ms <;> simp only [List.nil.sizeOf_spec, List.cons.sizeOf_spec] <;> omega
    | some p =>
      have := List.sizeOf_lt_of_mem (List.mem_of_find?_eq_some hf)
      rcases p with ⟨k, w⟩
      simp only [Option.map_some, Option.getD_some, object.sizeOf_spec, Prod.mk.sizeOf_spec] at *
      omega
  | _ => simp [members?] at h

/-! ## Weights

An object's functions are no part of it, yet writing goes on from the object to them. They weigh
nothing, and all other data weighs its size.
-/

noncomputable def weight : Native → Nat
  | .builtin _ => 0
  | v => sizeOf v

theorem weight_le_sizeOf (v : Native) : weight v ≤ sizeOf v := by
  cases v <;> simp [weight]

theorem weight_eq_of_items {v : Native} {items : List Native} (h : v.items? = some items) :
    weight v = sizeOf v := by
  cases v <;> simp [items?] at h <;> rfl

theorem weight_eq_of_entries {v : Native} {es : List (Native × Native)}
    (h : v.entries? = some es) : weight v = sizeOf v := by
  cases v <;> simp [entries?] at h <;> rfl

theorem weight_eq_of_members {v : Native} {ms : List (String × Native)}
    (h : v.members? = some ms) : weight v = sizeOf v := by
  cases v <;> simp [members?] at h <;> rfl

theorem weight_item {v x : Native} {items : List Native} (h : v.items? = some items)
    (hx : x ∈ items) : weight x < weight v :=
  weight_eq_of_items h ▸ Nat.lt_of_le_of_lt (weight_le_sizeOf x) (sizeOf_item h hx)

theorem weight_entry {v : Native} {p : Native × Native} {es : List (Native × Native)}
    (h : v.entries? = some es) (hp : p ∈ es) : weight p.1 < weight v ∧ weight p.2 < weight v := by
  rw [weight_eq_of_entries h]
  exact ⟨Nat.lt_of_le_of_lt (weight_le_sizeOf _) (sizeOf_entry h hp).1,
    Nat.lt_of_le_of_lt (weight_le_sizeOf _) (sizeOf_entry h hp).2⟩

theorem weight_answer {v : Native} {ms : List (String × Native)} (h : v.members? = some ms)
    (key : String) : weight (answer ms key) < weight v := by
  rw [weight_eq_of_members h]
  have own := Nat.lt_of_le_of_lt (weight_le_sizeOf _) (sizeOf_member h key)
  have whole : 0 < sizeOf v := Nat.zero_lt_of_lt own
  unfold answer
  unfold member at own
  split
  · next w hw => simpa only [hw, Option.getD_some] using own
  · next hw =>
    split
    · exact whole
    · simpa only [hw, Option.getD_none] using own

end ShapeSchema.Native
