import Mathlib.Data.List.Perm.Subperm
import ShapeSchema.Proofs.Decimal.Whole
import ShapeSchema.Proofs.Native.Entries
import ShapeSchema.Proofs.Shape.Run

/-!
# Names of structs and enums

A struct or enum keeps the name it has received, and no two receive the same name: a base name that
is taken is numbered. The number is found by counting on until the numbered name is free
(`Searches`); among more numbers than there are names one is free (`numbered_freeOffset_not_mem`),
so the search ends (`searches_freeOffset`).
-/

namespace ShapeSchema.Builder

/-! ## Numbers -/

theorem numbered_injective {base : String} {m n : Nat} (h : numbered base m = numbered base n) :
    m = n := by
  have hl := congrArg String.toList h
  unfold numbered at hl
  simp only [String.toList_append] at hl
  have hd : (toString m).toList = (toString n).toList := List.append_cancel_left hl
  have hr : Nat.toDigits 10 m = Nat.toDigits 10 n := by
    rw [← Nat.toList_repr, ← Nat.toList_repr]
    exact hd
  rw [← Decimal.natOfDigits_toDigits m, hr, Decimal.natOfDigits_toDigits]

theorem numbered_freeOffset_not_mem (used : List String) (base : String) (counter : Nat) :
    numbered base (counter + 1 + freeOffset used base counter) ∉ used := by
  unfold freeOffset
  cases h : (List.range (used.length + 1)).find? fun i =>
      !used.contains (numbered base (counter + 1 + i)) with
  | some i =>
    have := List.find?_some h
    simpa using this
  | none =>
    -- more numbers than names, all of them taken
    intro _
    have taken : (List.range (used.length + 1)).map (fun i => numbered base (counter + 1 + i))
        ⊆ used := by
      intro name hname
      obtain ⟨i, hi, rfl⟩ := List.mem_map.1 hname
      simpa using List.find?_eq_none.1 h i hi
    have distinct : ((List.range (used.length + 1)).map
        fun i => numbered base (counter + 1 + i)).Nodup := by
      refine List.nodup_range.map fun i j hij => ?_
      have := numbered_injective hij
      omega
    have hlen := (List.subperm_of_subset distinct taken).length_le
    rw [List.length_map, List.length_range] at hlen
    omega

/-! ## The search for a free number -/

/-- Counting on from a number until the numbered name is free. -/
inductive Searches (used : List String) (base : String) : Nat → Nat → Prop where
  | free {n : Nat} : numbered base (n + 1) ∉ used → Searches used base n (n + 1)
  | taken {n m : Nat} : numbered base (n + 1) ∈ used → Searches used base (n + 1) m →
      Searches used base n m

theorem Searches.lt {used : List String} {base : String} {n m : Nat} (h : Searches used base n m) :
    n < m := by
  induction h with
  | free => exact Nat.lt_succ_self _
  | taken _ _ ih => exact Nat.lt_of_succ_lt ih

theorem Searches.not_mem {used : List String} {base : String} {n m : Nat}
    (h : Searches used base n m) : numbered base m ∉ used := by
  induction h with
  | free hfree => exact hfree
  | taken _ _ ih => exact ih

/-- A search goes through all the numbers that are taken. -/
theorem searches_of_taken {used : List String} {base : String} (k n : Nat)
    (htaken : ∀ i < k, numbered base (n + 1 + i) ∈ used)
    (hfree : numbered base (n + 1 + k) ∉ used) : Searches used base n (n + 1 + k) := by
  induction k generalizing n with
  | zero => exact .free hfree
  | succ k ih =>
    have hnext : n + 1 + (k + 1) = n + 1 + 1 + k := by omega
    rw [hnext] at hfree ⊢
    refine .taken (htaken 0 (Nat.zero_lt_succ k)) (ih (n + 1) (fun i hi => ?_) hfree)
    have hi' := htaken (i + 1) (Nat.succ_lt_succ hi)
    rwa [show n + 1 + (i + 1) = n + 1 + 1 + i by omega] at hi'

/-- The search ends, and it ends where the builder goes on at once. -/
theorem searches_freeOffset (used : List String) (base : String) (counter : Nat) :
    Searches used base counter (counter + 1 + freeOffset used base counter) := by
  refine searches_of_taken _ _ (fun i hi => ?_) (numbered_freeOffset_not_mem used base counter)
  unfold freeOffset at hi
  cases hfind : (List.range (used.length + 1)).find? fun i =>
      !used.contains (numbered base (counter + 1 + i)) with
  | none =>
    rw [hfind] at hi
    exact absurd hi (Nat.not_lt_zero i)
  | some k =>
    rw [hfind] at hi
    have before := (List.find?_range_eq_some.1 hfind).2.2 i hi
    simpa using before

/-! ## Names that are given -/

/-- No struct or enum has two names, and no two have the same. -/
def DistinctNames (s : BuildState) : Prop :=
  (Entries.keys s.names).Nodup ∧ (s.names.map Prod.snd).Nodup

theorem distinct_append {ns : List (ShapeId × String)} {id : ShapeId} {name : String}
    (h : (Entries.keys ns).Nodup ∧ (ns.map Prod.snd).Nodup) (hid : id ∉ Entries.keys ns)
    (hname : name ∉ ns.map Prod.snd) : (Entries.keys (ns ++ [(id, name)])).Nodup ∧
      ((ns ++ [(id, name)]).map Prod.snd).Nodup := by
  unfold Entries.keys
  rw [List.map_append, List.map_append, List.map_singleton, List.map_singleton,
    ← List.concat_eq_append, ← List.concat_eq_append]
  exact ⟨h.1.concat hid, h.2.concat hname⟩

theorem find?_append_self {α : Type} {es : List (ShapeId × α)} {id : ShapeId} {name : α}
    (h : Entries.find? es id = none) : Entries.find? (es ++ [(id, name)]) id = some name := by
  have : es.find? (fun p => p.1 == id) = none := Option.map_eq_none_iff.1 h
  unfold Entries.find?
  rw [List.find?_append, this]
  simp

section

variable {id : ShapeId} {base name : String} {s s' : BuildState}

/-- A shape that has a name keeps it. -/
theorem ran_internalName_known (h : Entries.find? s.names id = some name) :
    Ran (internalName id base) s name s := by
  unfold internalName
  refine ran_bind.2 ⟨s, s, ran_get.2 ⟨rfl, rfl⟩, ?_⟩
  rw [h]
  exact ran_pure.2 ⟨rfl, rfl⟩

/-- A base name that is not in use is given as it is. -/
theorem ran_internalName_plain (h : Entries.find? s.names id = none)
    (hfree : base ∉ s.names.map Prod.snd) :
    Ran (internalName id base) s base { s with names := s.names ++ [(id, base)] } := by
  have hused : ¬(s.names.map (·.2)).contains base = true := by rwa [List.contains_iff_mem]
  unfold internalName
  refine ran_bind.2 ⟨s, s, ran_get.2 ⟨rfl, rfl⟩, ?_⟩
  rw [h]
  dsimp only
  rw [if_neg hused]
  exact ran_bind.2 ⟨⟨⟩, _, ran_set.2 rfl, ran_pure.2 ⟨rfl, rfl⟩⟩

/-- A base name that is in use gets the number where the search ends. -/
theorem ran_internalName_counted (h : Entries.find? s.names id = none)
    (hmem : base ∈ s.names.map Prod.snd) : ∃ n, Searches (s.names.map Prod.snd) base s.counter n ∧
      Ran (internalName id base) s (numbered base n) { s with
        counter := n
        names := s.names ++ [(id, numbered base n)]
        events := s.events ++ [⟨.debug,
          "internal name " ++ base ++ " taken; using " ++ numbered base n,
          some (.object [("shape", .text "?")])⟩] } := by
  have hused : (s.names.map (·.2)).contains base = true := List.contains_iff_mem.2 hmem
  refine ⟨_, searches_freeOffset _ _ _, ?_⟩
  unfold internalName
  refine ran_bind.2 ⟨s, s, ran_get.2 ⟨rfl, rfl⟩, ?_⟩
  rw [h]
  dsimp only
  rw [if_pos hused]
  exact ran_bind.2 ⟨⟨⟩, _, ran_set.2 rfl, ran_bind.2 ⟨⟨⟩, _, ran_log.2 rfl,
    ran_pure.2 ⟨rfl, rfl⟩⟩⟩

theorem ran_internalName (h : Ran (internalName id base) s name s') (hs : DistinctNames s) :
    Grows s s' ∧ DistinctNames s' ∧ Entries.find? s'.names id = some name ∧
      (∀ p ∈ s'.names, p ∈ s.names ∨ p.1 = id) ∧ s'.visited = s.visited ∧
      s'.registry = s.registry := by
  have added : ∀ n p, p ∈ s.names ++ [(id, n)] → p ∈ s.names ∨ p.1 = id := by
    intro n p hp
    rcases List.mem_append.1 hp with hp | hp
    · exact .inl hp
    · rw [List.mem_singleton.1 hp]
      exact .inr rfl
  cases hfind : Entries.find? s.names id with
  | some found =>
    cases h.symm.trans (ran_internalName_known hfind)
    exact ⟨.refl _, hs, hfind, fun _ hp => .inl hp, rfl, rfl⟩
  | none =>
    have hid := Entries.find?_eq_none.1 hfind
    by_cases hused : base ∈ s.names.map Prod.snd
    · obtain ⟨n, hsearch, hran⟩ := ran_internalName_counted hfind hused
      cases h.symm.trans hran
      exact ⟨⟨List.prefix_rfl, List.prefix_append _ _, List.prefix_rfl, List.prefix_rfl, rfl⟩,
        distinct_append hs hid hsearch.not_mem, find?_append_self hfind, added _, rfl, rfl⟩
    · cases h.symm.trans (ran_internalName_plain hfind hused)
      exact ⟨⟨List.prefix_rfl, List.prefix_append _ _, List.prefix_rfl, List.prefix_rfl, rfl⟩,
        distinct_append hs hid hused, find?_append_self hfind, added _, rfl, rfl⟩

end

end ShapeSchema.Builder
