import ShapeSchema.Proofs.Ty.Canonical

/-!
# Members of unions

Flattening leaves the members that a union takes over as they are (`flattenAll_of_flatIn`), and
deduplication keeps types that are pairwise apart. For annotations whose text tells them apart it
drops only what it keeps elsewhere (`mem_dedupe`).
-/

namespace ShapeSchema.Ty

variable {μ : Type}

/-! ## Flattening -/

/-- A type that a union around it takes over as one member. -/
def FlatIn (keep : μ → Bool) (t : Ty μ) : Prop := t.isUnion = true → keep t.ann = true

theorem flatten_of_flatIn {keep : μ → Bool} {t : Ty μ} (h : FlatIn keep t) :
    flatten keep t = [t] := by
  cases t with
  | union ms null a => rw [flatten, if_pos (show keep a = true from h rfl)]
  | _ => rfl

theorem flattenAll_of_flatIn {keep : μ → Bool} {ts : List (Ty μ)} (h : ∀ t ∈ ts, FlatIn keep t) :
    flattenAll keep ts = ts := by
  induction ts with
  | nil => rfl
  | cons t ts ih =>
    rw [flattenAll, flatten_of_flatIn (h t List.mem_cons_self),
      ih fun u hu => h u (List.mem_cons_of_mem t hu)]
    rfl

theorem flatIn_flatten (keep : μ → Bool) (t : Ty μ) : ∀ m ∈ flatten keep t, FlatIn keep m := by
  induction t using induct with
  | union ms null a ih =>
    intro m hm
    rw [flatten] at hm
    split at hm
    · next hk =>
      rw [List.mem_singleton.1 hm]
      exact fun _ => hk
    · rcases List.mem_append.1 hm with hm | hm
      · rw [flattenAll_eq_flatMap] at hm
        obtain ⟨t, ht, hm⟩ := List.mem_flatMap.1 hm
        exact ih t ht m hm
      · obtain ⟨n, -, rfl⟩ := List.mem_map.1 hm
        intro h
        cases h
  | _ =>
    intro m hm
    rw [List.mem_singleton.1 hm]
    intro h
    cases h

/-- What a union takes over from a type has every property that passes from a union to its parts. -/
theorem forall_mem_flatten {keep : μ → Bool} {P : Ty μ → Prop}
    (hparts : ∀ t : Ty μ, keep t.ann = false → P t → ∀ u ∈ t.children, P u) {t m : Ty μ}
    (h : P t) (hm : m ∈ flatten keep t) : P m := by
  induction t using induct generalizing m with
  | union ms null a ih =>
    rw [flatten] at hm
    split at hm
    · rwa [List.mem_singleton.1 hm]
    · next hkeep =>
      have hchildren := hparts (union ms null a) (Bool.eq_false_iff.2 hkeep) h
      rw [flattenAll_eq_flatMap, List.mem_append, List.mem_flatMap] at hm
      rcases hm with ⟨u, hu, hm⟩ | hm
      · exact ih u hu (hchildren u (List.mem_append_left _ hu)) hm
      · exact hchildren m (List.mem_append_right _ hm)
  | _ => rwa [List.mem_singleton.1 hm]

/-! ## Deduplication -/

variable [Metadata μ]

/-- The types of a list that no earlier one equals, in the sense of `same`. -/
def Apart (ts : List (Ty μ)) : Prop := ts.Pairwise fun a b => a.same b = false

/-- One step of `dedupe`. -/
def keepNew (kept : List (Ty μ)) (t : Ty μ) : List (Ty μ) :=
  if kept.any fun m => m.same t then kept else kept ++ [t]

theorem keepNew_apart {kept : List (Ty μ)} (h : Apart kept) (t : Ty μ) : Apart (keepNew kept t) := by
  unfold keepNew
  split
  · exact h
  · next hnew =>
    refine List.pairwise_append.2 ⟨h, List.pairwise_singleton _ t, fun m hm u hu => ?_⟩
    rw [List.mem_singleton.1 hu]
    by_cases hs : m.same t = true
    · exact absurd (List.any_eq_true.2 ⟨m, hm, hs⟩) hnew
    · exact Bool.eq_false_iff.2 hs

theorem keepNew_sublist (kept : List (Ty μ)) (t : Ty μ) : (keepNew kept t).Sublist (kept ++ [t]) := by
  unfold keepNew
  split
  · exact List.sublist_append_left kept [t]
  · exact List.Sublist.refl _

theorem subset_keepNew (kept : List (Ty μ)) (t : Ty μ) : kept ⊆ keepNew kept t := by
  intro m hm
  unfold keepNew
  split
  · exact hm
  · exact List.mem_append_left _ hm

theorem keepNew_of_apart {kept ts : List (Ty μ)} {t : Ty μ} (h : Apart (kept ++ t :: ts)) :
    keepNew kept t = kept ++ [t] := by
  refine if_neg fun hany => ?_
  obtain ⟨m, hm, hs⟩ := List.any_eq_true.1 hany
  rw [(List.pairwise_append.1 h).2.2 m hm t List.mem_cons_self] at hs
  cases hs

theorem apart_dedupe (ts : List (Ty μ)) : Apart (dedupe ts) := by
  have run : ∀ ts kept : List (Ty μ), Apart kept → Apart (ts.foldl keepNew kept) := by
    intro ts
    induction ts with
    | nil => exact fun kept h => h
    | cons t ts ih => exact fun kept h => ih _ (keepNew_apart h t)
  exact run ts [] .nil

theorem dedupe_sublist (ts : List (Ty μ)) : (dedupe ts).Sublist ts := by
  have run : ∀ ts kept : List (Ty μ), (ts.foldl keepNew kept).Sublist (kept ++ ts) := by
    intro ts
    induction ts with
    | nil => intro kept; simp
    | cons t ts ih =>
      intro kept
      have step := (keepNew_sublist kept t).append_right ts
      rw [List.append_assoc] at step
      exact (ih (keepNew kept t)).trans step
  exact run ts []

theorem dedupe_of_apart {ts : List (Ty μ)} (h : Apart ts) : dedupe ts = ts := by
  have run : ∀ ts kept : List (Ty μ), Apart (kept ++ ts) → ts.foldl keepNew kept = kept ++ ts := by
    intro ts
    induction ts with
    | nil => intro kept _; simp
    | cons t ts ih =>
      intro kept h
      rw [List.foldl_cons, keepNew_of_apart h, ih _ (by simpa using h)]
      simp
  exact run ts [] h

theorem mem_dedupe (hl : Metadata.Legible μ) {ts : List (Ty μ)} {t : Ty μ} :
    t ∈ dedupe ts ↔ t ∈ ts := by
  have keeps : ∀ ts kept : List (Ty μ), kept ⊆ ts.foldl keepNew kept := by
    intro ts
    induction ts with
    | nil => exact fun kept => List.Subset.refl kept
    | cons t ts ih => exact fun kept => List.Subset.trans (subset_keepNew kept t) (ih _)
  have takes : ∀ kept : List (Ty μ), t ∈ keepNew kept t := by
    intro kept
    unfold keepNew
    split
    · next hany =>
      obtain ⟨m, hm, hs⟩ := List.any_eq_true.1 hany
      rwa [← (same_iff hl).1 hs]
    · exact List.mem_append_right _ List.mem_cons_self
  have run : ∀ ts kept : List (Ty μ), t ∈ ts → t ∈ ts.foldl keepNew kept := by
    intro ts
    induction ts with
    | nil => simp
    | cons u ts ih =>
      intro kept h
      rcases List.mem_cons.1 h with rfl | h
      · exact keeps ts _ (takes kept)
      · exact ih _ h
  exact ⟨fun h => (dedupe_sublist ts).subset h, run ts []⟩

end ShapeSchema.Ty
