import Mathlib.Data.List.Induction
import Mathlib.Data.List.Nodup
import ShapeSchema.Native.Basic

/-!
# Keyed entries

Tables whose keys are distinct: a look-up does not depend on their order (`find?_eq_of_perm`), and
setting their entries one after the other changes nothing (`ofList_of_nodup`). What results from
setting entries has distinct keys (`nodup_ofList`), and an object only reorders its members
(`objectOrder_perm`).
-/

namespace ShapeSchema.Entries

variable {α β : Type}

/-- The keys of a table, in order. -/
def keys (es : List (α × β)) : List α := es.map Prod.fst

/-! ## Look-up -/

theorem find?_cons [BEq α] (p : α × β) (es : List (α × β)) (key : α) :
    find? (p :: es) key = if p.1 == key then some p.2 else find? es key := by
  unfold find?
  rw [List.find?_cons]
  cases p.1 == key <;> rfl

theorem keys_map {γ : Type} (f : β → γ) (es : List (α × β)) :
    keys (es.map fun p => (p.1, f p.2)) = keys es := by
  unfold keys
  rw [List.map_map]
  rfl

theorem keys_filterMap_sublist {γ : Type} (g : α × β → Option γ) (es : List (α × β)) :
    (keys (es.filterMap fun p => (g p).map fun x => (p.1, x))).Sublist (keys es) := by
  induction es with
  | nil => exact .refl _
  | cons p es ih =>
    cases hg : g p with
    | none =>
      rw [List.filterMap_cons_none (by rw [hg]; rfl)]
      exact ih.cons p.1
    | some x =>
      rw [List.filterMap_cons_some (by rw [hg]; rfl)]
      exact ih.cons_cons p.1

theorem find?_map [BEq α] {γ : Type} (f : β → γ) (es : List (α × β)) (key : α) :
    find? (es.map fun p => (p.1, f p.2)) key = (find? es key).map f := by
  unfold find?
  rw [List.find?_map, Option.map_map, Option.map_map]
  rfl

variable [BEq α] [LawfulBEq α]

theorem find?_filter (p : α → Bool) (es : List (α × β)) {key : α} (hp : p key = true) :
    find? (es.filter fun e => p e.1) key = find? es key := by
  induction es with
  | nil => rfl
  | cons e es ih =>
    rw [find?_cons]
    by_cases he : e.1 == key
    · have hk : p e.1 = true := by rwa [show e.1 = key by simpa using he]
      rw [List.filter_cons, if_pos hk, find?_cons, if_pos he, if_pos he]
    · rw [if_neg he, List.filter_cons]
      split
      · rw [find?_cons, if_neg he, ih]
      · exact ih

theorem mem_of_find?_eq_some {es : List (α × β)} {key : α} {value : β}
    (h : find? es key = some value) : (key, value) ∈ es := by
  obtain ⟨p, hp, rfl⟩ := Option.map_eq_some_iff.1 h
  have hk : p.1 = key := by simpa using List.find?_some hp
  rw [← hk]
  exact List.mem_of_find?_eq_some hp

theorem find?_eq_none {es : List (α × β)} {key : α} : find? es key = none ↔ key ∉ keys es := by
  unfold find? keys
  rw [Option.map_eq_none_iff, List.find?_eq_none, List.mem_map]
  constructor
  · rintro h ⟨p, hp, rfl⟩
    exact h p hp (by simp)
  · intro h p hp he
    exact h ⟨p, hp, by simpa using he⟩

theorem exists_find? {es : List (α × β)} {key : α} (h : key ∈ keys es) :
    ∃ value, find? es key = some value := by
  cases hf : find? es key with
  | none => exact absurd h (find?_eq_none.1 hf)
  | some value => exact ⟨value, rfl⟩

theorem find?_eq_some_of_mem {es : List (α × β)} (nd : (keys es).Nodup) {key : α} {value : β}
    (h : (key, value) ∈ es) : find? es key = some value := by
  induction es with
  | nil => simp at h
  | cons p es ih =>
    obtain ⟨hp, nd⟩ := List.nodup_cons.1 nd
    rw [find?_cons]
    rcases List.mem_cons.1 h with rfl | h
    · simp
    · have hne : p.1 ≠ key := fun e => hp (e ▸ List.mem_map.2 ⟨_, h, rfl⟩)
      rw [if_neg (by simpa using hne)]
      exact ih nd h

theorem find?_eq_some_iff {es : List (α × β)} (nd : (keys es).Nodup) {key : α} {value : β} :
    find? es key = some value ↔ (key, value) ∈ es :=
  ⟨mem_of_find?_eq_some, find?_eq_some_of_mem nd⟩

theorem find?_eq_of_perm {es fs : List (α × β)} (h : es.Perm fs) (nd : (keys es).Nodup)
    (key : α) : find? es key = find? fs key := by
  have nd' : (keys fs).Nodup := (h.map Prod.fst).nodup_iff.1 nd
  apply Option.ext
  intro value
  rw [find?_eq_some_iff nd, find?_eq_some_iff nd', h.mem_iff]

/-- What a table with distinct keys holds after every entry is kept with a new value or dropped. -/
theorem find?_filterMap {γ : Type} {es : List (α × β)} (g : α × β → Option γ)
    (nd : (keys es).Nodup) (key : α) :
    find? (es.filterMap fun p => (g p).map fun x => (p.1, x)) key =
      (find? es key).bind fun x => g (key, x) := by
  induction es with
  | nil => rfl
  | cons p es ih =>
    obtain ⟨hp, nd⟩ := List.nodup_cons.1 nd
    rw [find?_cons]
    by_cases hk : p.1 == key
    · obtain rfl : p.1 = key := beq_iff_eq.1 hk
      rw [if_pos hk]
      show _ = g p
      cases hg : g p with
      | none =>
        rw [List.filterMap_cons_none (by rw [hg]; rfl), ih nd, find?_eq_none.2 hp]
        rfl
      | some x => rw [List.filterMap_cons_some (by rw [hg]; rfl), find?_cons, if_pos hk]
    · rw [if_neg hk, ← ih nd]
      cases hg : g p with
      | none => rw [List.filterMap_cons_none (by rw [hg]; rfl)]
      | some x => rw [List.filterMap_cons_some (by rw [hg]; rfl), find?_cons, if_neg hk]

/-! ## Setting entries -/

theorem keys_insert (es : List (α × β)) (key : α) (value : β) :
    keys (insert es key value) = if key ∈ keys es then keys es else keys es ++ [key] := by
  induction es with
  | nil => simp [insert, keys]
  | cons p es ih =>
    unfold insert
    by_cases hp : p.1 == key
    · have hk : key = p.1 := (by simpa using hp : p.1 = key).symm
      rw [if_pos hp, if_pos (by rw [hk]; exact List.mem_cons_self)]
      rfl
    · have hk : key ≠ p.1 := fun e => hp (by simp [e])
      rw [if_neg hp]
      show p.1 :: keys (insert es key value) = if key ∈ p.1 :: keys es then _ else _
      rw [ih]
      by_cases hm : key ∈ keys es
      · rw [if_pos hm, if_pos (List.mem_cons_of_mem _ hm)]
        rfl
      · rw [if_neg hm, if_neg (by simp [hk, hm])]
        rfl

theorem find?_insert (es : List (α × β)) (key other : α) (value : β) :
    find? (insert es key value) other = if key == other then some value else find? es other := by
  induction es with
  | nil =>
    show find? [(key, value)] other = _
    rw [find?_cons]
  | cons p es ih =>
    unfold insert
    by_cases hp : p.1 == key
    · have hk : p.1 = key := by simpa using hp
      rw [if_pos hp, find?_cons, find?_cons, hk]
      split <;> rfl
    · rw [if_neg hp, find?_cons, find?_cons, ih]
      by_cases ho : key == other
      · have hk : key = other := by simpa using ho
        rw [if_pos ho, if_pos ho, if_neg (by rw [← hk]; exact hp)]
      · rw [if_neg ho, if_neg ho]

theorem nodup_insert {es : List (α × β)} (nd : (keys es).Nodup) (key : α) (value : β) :
    (keys (insert es key value)).Nodup := by
  rw [keys_insert]
  split
  · exact nd
  · next h =>
    refine List.nodup_append.2 ⟨nd, List.nodup_singleton key, fun a ha b hb e => h ?_⟩
    rw [List.mem_singleton.1 hb] at e
    exact e ▸ ha

theorem mem_insert {es : List (α × β)} {key : α} {value : β} {p : α × β}
    (h : p ∈ insert es key value) : p ∈ es ∨ p = (key, value) := by
  induction es with
  | nil => exact .inr (List.mem_singleton.1 h)
  | cons q es ih =>
    unfold insert at h
    split at h
    · next hq =>
      rcases List.mem_cons.1 h with rfl | h
      · exact .inr (by rw [show q.1 = key by simpa using hq])
      · exact .inl (List.mem_cons_of_mem q h)
    · rcases List.mem_cons.1 h with rfl | h
      · exact .inl List.mem_cons_self
      · exact (ih h).imp_left (List.mem_cons_of_mem q)

theorem insert_of_not_mem {es : List (α × β)} {key : α} (h : key ∉ keys es) (value : β) :
    insert es key value = es ++ [(key, value)] := by
  induction es with
  | nil => rfl
  | cons p es ih =>
    have hp : p.1 ≠ key := fun e => h (e ▸ List.mem_cons_self)
    unfold insert
    rw [if_neg (by simpa using hp), ih fun hm => h (List.mem_cons_of_mem _ hm)]
    rfl

theorem nodup_foldl_insert (es : List (α × β)) : ∀ acc : List (α × β), (keys acc).Nodup →
    (keys (es.foldl (fun acc p => insert acc p.1 p.2) acc)).Nodup := by
  induction es with
  | nil => exact fun acc h => h
  | cons p es ih => exact fun acc h => ih _ (nodup_insert h p.1 p.2)

theorem nodup_ofList (es : List (α × β)) : (keys (ofList es)).Nodup :=
  nodup_foldl_insert es [] List.nodup_nil

theorem mem_foldl_insert (es : List (α × β)) (p : α × β) : ∀ acc : List (α × β),
    p ∈ es.foldl (fun acc p => insert acc p.1 p.2) acc → p ∈ acc ∨ p ∈ es := by
  induction es with
  | nil => exact fun acc h => .inl h
  | cons q es ih =>
    intro acc h
    rcases ih _ h with h | h
    · rcases mem_insert h with h | rfl
      · exact .inl h
      · exact .inr List.mem_cons_self
    · exact .inr (List.mem_cons_of_mem q h)

theorem mem_of_mem_ofList {es : List (α × β)} {p : α × β} (h : p ∈ ofList es) : p ∈ es := by
  rcases mem_foldl_insert es p [] h with h | h
  · simp at h
  · exact h

theorem mem_keys_insert {es : List (α × β)} {key other : α} {value : β} :
    other ∈ keys (insert es key value) ↔ other ∈ keys es ∨ other = key := by
  rw [keys_insert]
  split
  · next hk =>
    refine ⟨.inl, fun h => h.elim id ?_⟩
    rintro rfl
    exact hk
  · rw [List.mem_append, List.mem_singleton]

theorem mem_keys_ofList {es : List (α × β)} {key : α} : key ∈ keys (ofList es) ↔ key ∈ keys es := by
  have run : ∀ es acc : List (α × β), key ∈ keys (es.foldl (fun acc p => insert acc p.1 p.2) acc) ↔
      key ∈ keys acc ∨ key ∈ keys es := by
    intro es
    induction es with
    | nil => intro acc; simp [keys]
    | cons p es ih =>
      intro acc
      rw [List.foldl_cons, ih, mem_keys_insert]
      show _ ↔ _ ∨ key ∈ p.1 :: keys es
      rw [List.mem_cons, or_assoc]
  rw [ofList, run es []]
  simp [keys]

theorem foldl_insert_of_nodup (es : List (α × β)) : ∀ acc : List (α × β),
    (keys (acc ++ es)).Nodup →
    es.foldl (fun acc p => insert acc p.1 p.2) acc = acc ++ es := by
  induction es with
  | nil => intro acc _; simp
  | cons p es ih =>
    intro acc h
    have hp : p.1 ∉ keys acc := by
      intro hm
      unfold keys at h hm
      rw [List.map_append, List.map_cons] at h
      exact (List.nodup_append.1 h).2.2 _ hm _ List.mem_cons_self rfl
    rw [List.foldl_cons, insert_of_not_mem hp, ih _ (by rwa [List.append_assoc]),
      List.append_assoc]
    rfl

theorem ofList_of_nodup {es : List (α × β)} (h : (keys es).Nodup) : ofList es = es :=
  foldl_insert_of_nodup es [] h

/-- There are as many entries as were set if their keys are distinct, else fewer. -/
theorem length_ofList (es : List (α × β)) : (ofList es).length ≤ es.length ∧
    ((ofList es).length = es.length ↔ (keys es).Nodup) := by
  induction es using List.reverseRecOn with
  | nil => exact ⟨Nat.le_refl _, fun _ => List.nodup_nil, fun _ => rfl⟩
  | append_singleton es p ih =>
    have hset : ofList (es ++ [p]) = insert (ofList es) p.1 p.2 := List.foldl_append
    have hlen : (ofList (es ++ [p])).length =
        if p.1 ∈ keys es then (ofList es).length else (ofList es).length + 1 := by
      have hkeys := congrArg List.length (keys_insert (ofList es) p.1 p.2)
      rw [hset, ← List.length_map Prod.fst]
      refine hkeys.trans ?_
      simp only [mem_keys_ofList]
      split <;> simp [keys]
    have happ : keys (es ++ [p]) = keys es ++ [p.1] := List.map_append
    rw [hlen, happ, List.nodup_append, ← ih.2, List.length_append, List.length_singleton]
    split
    · next hmem =>
      refine ⟨by have := ih.1; omega, fun h => absurd h (by have := ih.1; omega), fun h => ?_⟩
      exact absurd rfl (h.2.2 _ hmem _ List.mem_cons_self)
    · next hnew =>
      refine ⟨Nat.succ_le_succ ih.1, fun h => ⟨Nat.succ.inj h, List.nodup_singleton _, ?_⟩,
        fun h => congrArg Nat.succ h.1⟩
      rintro k hk _ hp rfl
      exact hnew (List.mem_singleton.1 hp ▸ hk)

end ShapeSchema.Entries

namespace ShapeSchema.Native

/-! ## Order of an object's members -/

theorem perm_filterMap_filter {β : Type} (es : List (String × β)) :
    (((es.filterMap fun p => (arrayIndex? p.1).map fun i => (i, p)).map Prod.snd)
      ++ es.filter fun p => (arrayIndex? p.1).isNone).Perm es := by
  induction es with
  | nil => exact .refl _
  | cons p es ih =>
    cases h : arrayIndex? p.1 with
    | some i =>
      rw [List.filterMap_cons_some (by rw [h]; rfl), List.filter_cons_of_neg (by simp [h])]
      exact ih.cons p
    | none =>
      rw [List.filterMap_cons_none (by rw [h]; rfl), List.filter_cons_of_pos (by simp [h])]
      exact List.perm_middle.trans (ih.cons p)

theorem objectOrder_perm {β : Type} (es : List (String × β)) : (objectOrder es).Perm es :=
  (((List.mergeSort_perm _ _).map Prod.snd).append_right _).trans (perm_filterMap_filter es)

end ShapeSchema.Native
