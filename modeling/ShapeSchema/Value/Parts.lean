import ShapeSchema.Value.Basic

/-!
# Parts of dynamic values

The items of a list and the entries of a map or class, each smaller than the whole.
-/

namespace ShapeSchema.Value

/-- The items of a list. -/
def items? : Value → Option (List Value)
  | .list items => some items
  | _ => none

theorem sizeOf_item {v x : Value} {items : List Value} (h : v.items? = some items)
    (hx : x ∈ items) : sizeOf x < sizeOf v := by
  cases v with
  | list is =>
    cases h
    have := List.sizeOf_lt_of_mem hx
    simp only [list.sizeOf_spec]
    omega
  | _ => simp [items?] at h

theorem sizeOf_entry {v : Value} {p : String × Value} {es : List (String × Value)}
    (h : v.entries? = some es) (hp : p ∈ es) : sizeOf p.2 < sizeOf v := by
  have := List.sizeOf_lt_of_mem hp
  rcases p with ⟨k, w⟩
  cases v with
  | map es' =>
    cases h
    simp only [map.sizeOf_spec, Prod.mk.sizeOf_spec] at *
    omega
  | classOf n es' =>
    cases h
    simp only [classOf.sizeOf_spec, Prod.mk.sizeOf_spec] at *
    omega
  | _ => simp [entries?] at h

end ShapeSchema.Value

namespace ShapeSchema.Entries

variable {α β : Type}

/-- A value that is found stands in an entry. -/
theorem mem_of_find? [BEq α] {es : List (α × β)} {key : α} {value : β}
    (h : find? es key = some value) : ∃ k, (k, value) ∈ es := by
  obtain ⟨p, hp, rfl⟩ := Option.map_eq_some_iff.1 h
  exact ⟨p.1, List.mem_of_find?_eq_some hp⟩

end ShapeSchema.Entries
