import ShapeSchema.Proofs.Ty.Mentions
import ShapeSchema.Proofs.Ty.Streaming

/-!
# Stages of simplification

Simplifying a union lays the members of nested unions side by side (`laidOut`), leaves out what a
checked union among them covers (`uncovered`), and keeps one of each group of equal types
(`remaining`) and the first null (`remainingNull`). Nothing gets lost on the way: every type laid
out remains, is a null next to a remaining null, or is covered by a union that remains
(`accounted`).
-/

namespace ShapeSchema.Ty

variable {μ : Type} [Metadata μ]

/-! ## Stages -/

/-- The types that a simplified union chooses from, nested unions without checks laid open. -/
def laidOut (ts : List (Ty μ)) : List (Ty μ) := flattenAll Metadata.hasChecks ts

/-- The types laid out that no checked union among them covers. -/
def uncovered (ts : List (Ty μ)) : List (Ty μ) :=
  (laidOut ts).filter fun t => t.isUnion || !((laidOut ts).filter isUnion).any (coveredByUnion t)

/-- The members that a simplified union is left with. -/
def remaining (ts : List (Ty μ)) : List (Ty μ) := dedupe ((uncovered ts).filter fun t => !t.isNull)

/-- The null that a simplified union is left with. -/
def remainingNull (ts : List (Ty μ)) : Option μ := (uncovered ts).findSome? nullAnn?

theorem simplifyUnion_eq (ts : List (Ty μ)) (a b : μ) : simplifyUnion ts a b =
    match remaining ts with
    | [] => prim .null ((remainingNull ts).getD b)
    | [t] => match remainingNull ts with
      | none => t
      | some n => optionalOf t n
    | members => union members (remainingNull ts) a := rfl

/-- The ways out of `simplifyUnion`. -/
@[elab_as_elim]
theorem simplifyUnion_cases {P : Ty μ → Prop} {ts : List (Ty μ)} {a b : μ}
    (none : remaining ts = [] → P (prim .null ((remainingNull ts).getD b)))
    (one : ∀ t, remaining ts = [t] → remainingNull ts = .none → P t)
    (optional : ∀ t n, remaining ts = [t] → remainingNull ts = some n → P (optionalOf t n))
    (several : 2 ≤ (remaining ts).length → P (union (remaining ts) (remainingNull ts) a)) :
    P (simplifyUnion ts a b) := by
  rw [simplifyUnion_eq]
  split
  · next h => exact none h
  · next t h =>
    split
    · next hn => exact one t h hn
    · next n hn => exact optional t n h hn
  · next hnone hone =>
    refine several ?_
    rcases hts : remaining ts with _ | ⟨t, _ | ⟨u, us⟩⟩
    · exact absurd hts hnone
    · exact absurd hts (hone t)
    · simp

theorem simplifyAll_eq_map (ts : List (Ty μ)) : simplifyAll ts = ts.map simplify := by
  induction ts with
  | nil => rfl
  | cons t ts ih => rw [simplifyAll, ih]; rfl

/-- Simplifying a type that is no union goes on below its root. -/
theorem simplify_of_not_isUnion {t : Ty μ} (h : t.isUnion = false) :
    t.simplify.ann = t.ann ∧ t.simplify.reference? = t.reference? ∧
      t.simplify.children = t.children.map simplify := by
  cases t with
  | tuple is a => exact ⟨rfl, rfl, simplifyAll_eq_map is⟩
  | arrow ps r a =>
    refine ⟨rfl, rfl, ?_⟩
    show simplifyAll ps ++ [r.simplify] = (ps ++ [r]).map simplify
    rw [simplifyAll_eq_map, List.map_append]
    rfl
  | union ms null a => cases h
  | _ => exact ⟨rfl, rfl, rfl⟩

/-- The null of a union stands beside its members and is simplified with them. -/
theorem simplify_of_isUnion {t : Ty μ} (h : t.isUnion = true) :
    t.simplify = (simplifyUnion (t.children.map simplify) t.ann t.ann).absorb t.ann := by
  cases t with
  | union ms null a =>
    rw [simplify, simplifyAll_eq_map]
    show _ = (simplifyUnion ((ms ++ nullMember null).map simplify) a a).absorb a
    rw [List.map_append]
    cases null <;> rfl
  | _ => cases h

/-! ## What remains -/

variable {ts : List (Ty μ)} {t : Ty μ}

theorem mem_laidOut : t ∈ laidOut ts ↔ ∃ u ∈ ts, t ∈ flatten Metadata.hasChecks u := by
  rw [laidOut, flattenAll_eq_flatMap, List.mem_flatMap]

theorem flatIn_of_mem_laidOut (h : t ∈ laidOut ts) : FlatIn Metadata.hasChecks t := by
  obtain ⟨u, -, ht⟩ := mem_laidOut.1 h
  exact flatIn_flatten _ u t ht

theorem coveredByUnion_iff (hl : Metadata.Legible μ) {u : Ty μ} :
    coveredByUnion t u = true ↔ ∃ ms null a, u = union ms null a ∧
      ((t.isNull = true ∧ null.isSome = true) ∨ t ∈ ms) := by
  cases u with
  | union ms null a =>
    rw [coveredByUnion, Bool.or_eq_true, Bool.and_eq_true, List.any_eq_true]
    refine Iff.trans (or_congr_right ?_) ⟨fun h => ⟨ms, null, a, rfl, h⟩, ?_⟩
    · constructor
      · rintro ⟨m, hm, hs⟩
        rwa [← (same_iff hl).1 hs]
      · exact fun h => ⟨t, h, (same_iff hl).2 rfl⟩
    · rintro ⟨ms', null', a', hu, h⟩
      injection hu with hms hnull
      rwa [hms, hnull]
  | _ => simp [coveredByUnion]

theorem mem_uncovered : t ∈ uncovered ts ↔ t ∈ laidOut ts ∧
    (t.isUnion = true ∨ ∀ u ∈ laidOut ts, u.isUnion = true → coveredByUnion t u = false) := by
  simp [uncovered]

theorem mem_remaining (hl : Metadata.Legible μ) :
    t ∈ remaining ts ↔ t ∈ uncovered ts ∧ t.isNull = false := by
  rw [remaining, mem_dedupe hl, List.mem_filter, Bool.not_eq_true']

theorem laidOut_of_remaining (h : t ∈ remaining ts) : t ∈ laidOut ts ∧ t.isNull = false := by
  have hmem := List.mem_filter.1 ((dedupe_sublist _).subset h)
  exact ⟨(mem_uncovered.1 hmem.1).1, by rw [← Bool.not_eq_true', hmem.2]⟩

theorem laidOut_of_remainingNull {n : μ} (h : remainingNull ts = some n) :
    prim .null n ∈ uncovered ts := by
  obtain ⟨t, ht, hn⟩ := List.exists_of_findSome?_eq_some h
  cases t with
  | prim p a =>
    cases p with
    | null => rwa [← Option.some.inj hn]
    | _ => cases hn
  | _ => cases hn

/-- A union is never left out: only other types are covered. -/
theorem mem_remaining_of_isUnion (hl : Metadata.Legible μ) (h : t ∈ laidOut ts)
    (hu : t.isUnion = true) : t ∈ remaining ts := by
  refine (mem_remaining hl).2 ⟨mem_uncovered.2 ⟨h, .inl hu⟩, ?_⟩
  cases t <;> first | rfl | cases hu

/-- What becomes of a type that is laid out. -/
theorem accounted (hl : Metadata.Legible μ) (h : t ∈ laidOut ts) :
    t ∈ remaining ts ∨ (t.isNull = true ∧ (remainingNull ts).isSome = true) ∨
      ∃ u ∈ remaining ts, coveredByUnion t u = true := by
  by_cases hshown : t ∈ uncovered ts
  · by_cases hn : t.isNull = true
    · obtain ⟨n, rfl⟩ := eq_null_of_isNull hn
      exact .inr (.inl ⟨hn, List.findSome?_isSome_iff.2 ⟨_, hshown, rfl⟩⟩)
    · exact .inl ((mem_remaining hl).2 ⟨hshown, Bool.eq_false_iff.2 hn⟩)
  · rw [mem_uncovered, not_and, not_or] at hshown
    obtain ⟨-, hcover⟩ := hshown h
    push Not at hcover
    obtain ⟨u, hu, hunion, hcover⟩ := hcover
    exact .inr (.inr ⟨u, mem_remaining_of_isUnion hl hu hunion, Bool.ne_false_iff.1 hcover⟩)

theorem remainingNull_isSome (hl : Metadata.Legible μ) (h : laidOut ts ≠ [])
    (hr : remaining ts = []) : (remainingNull ts).isSome = true := by
  obtain ⟨t, ht⟩ := List.exists_mem_of_ne_nil _ h
  rcases accounted hl ht with hmem | ⟨-, hnull⟩ | ⟨u, hmem, -⟩
  · rw [hr] at hmem
    cases hmem
  · exact hnull
  · rw [hr] at hmem
    cases hmem

/-- Of distinct types, none of them a union, all remain. -/
theorem remaining_of_nodup (hl : Metadata.Legible μ) {ms : List (Ty μ)} (hlaid : laidOut ts = ms)
    (hplain : ∀ m ∈ ms, m.isUnion = false) (nd : ms.Nodup) :
    remaining ts = ms.filter (fun m => !m.isNull) ∧ remainingNull ts = ms.findSome? nullAnn? := by
  have huncovered : uncovered ts = ms := by
    unfold uncovered
    rw [hlaid]
    refine List.filter_eq_self.2 fun m _ => ?_
    have : ms.filter isUnion = [] := List.filter_eq_nil_iff.2 fun u hu => by simp [hplain u hu]
    simp [this]
  unfold remaining remainingNull
  rw [huncovered]
  refine ⟨dedupe_of_apart ((nd.filter _).imp fun hne => Bool.eq_false_iff.2 fun hs => hne ?_), rfl⟩
  exact (same_iff hl).1 hs

/-! ## Simplified members -/

theorem flatten_ne_nil_of_isOptional {ν : Type} {t : Ty ν} (keep : ν → Bool)
    (h : t.isOptional = true) : flatten keep t ≠ [] := by
  cases t with
  | union ms null a =>
    obtain ⟨n, rfl⟩ := Option.isSome_iff_exists.1 h
    rw [flatten]
    split <;> simp [nullMember]
  | _ => exact List.cons_ne_nil _ _

theorem flatten_simplifyUnion_ne_nil (a b : μ) :
    flatten Metadata.hasChecks (simplifyUnion ts a b) ≠ [] := by
  refine simplifyUnion_cases (fun _ => ?_) (fun t h _ => ?_) (fun t n _ _ => ?_) fun h => ?_
  · exact List.cons_ne_nil _ _
  · have ht : t ∈ remaining ts := by rw [h]; exact List.mem_cons_self
    rw [flatten_of_flatIn (flatIn_of_mem_laidOut (laidOut_of_remaining ht).1)]
    exact List.cons_ne_nil _ _
  · exact flatten_ne_nil_of_isOptional _ (isOptional_optionalOf t n)
  · have hflat : ∀ t ∈ remaining ts, FlatIn Metadata.hasChecks t :=
      fun t ht => flatIn_of_mem_laidOut (laidOut_of_remaining ht).1
    rw [flatten, flattenAll_of_flatIn hflat]
    split
    · exact List.cons_ne_nil _ _
    · refine List.append_ne_nil_of_left_ne_nil (fun hnil => ?_) _
      rw [hnil] at h
      simp at h

theorem flatten_absorb (t : Ty μ) (a : μ) (h : flatten Metadata.hasChecks t ≠ []) :
    flatten Metadata.hasChecks (t.absorb a) ≠ [] := by
  unfold absorb
  split
  · exact h
  · next hu =>
    unfold withConstraints
    split
    · exact h
    · cases t <;> first | exact List.cons_ne_nil _ _ | exact absurd rfl hu

/-- A simplified type contributes some member to a union around it. -/
theorem flatten_simplify_ne_nil (t : Ty μ) : flatten Metadata.hasChecks t.simplify ≠ [] := by
  cases t with
  | union ms null a => exact flatten_absorb _ a (flatten_simplifyUnion_ne_nil a a)
  | _ => exact List.cons_ne_nil _ _

/-! ## References -/

variable {r : Reference}

theorem mentions_laidOut (ht : t ∈ laidOut ts) (h : t.Mentions r) : ∃ u ∈ ts, u.Mentions r := by
  obtain ⟨u, hu, ht⟩ := mem_laidOut.1 ht
  exact ⟨u, hu, mentions_flatten ht h⟩

theorem mentions_simplifyUnion {a b : μ} (h : (simplifyUnion ts a b).Mentions r) :
    ∃ t ∈ ts, t.Mentions r := by
  have member : ∀ t ∈ remaining ts, t.Mentions r → ∃ u ∈ ts, u.Mentions r :=
    fun t ht => mentions_laidOut (laidOut_of_remaining ht).1
  revert h
  refine simplifyUnion_cases (fun _ h => ?_) (fun t hts _ h => ?_) (fun t n hts _ h => ?_)
    fun _ h => ?_
  · exact absurd h (mentions_prim .null _)
  · exact member t (by rw [hts]; exact List.mem_cons_self) h
  · exact member t (by rw [hts]; exact List.mem_cons_self) ((mentions_optionalOf t n).1 h)
  · obtain ⟨t, ht, h⟩ := (mentions_union _ _ _).1 h
    exact member t ht h

theorem mentions_absorb (t : Ty μ) (a : μ) : (t.absorb a).Mentions r ↔ t.Mentions r := by
  unfold absorb
  split
  · exact Iff.rfl
  · exact mentions_withConstraints t _

/-- Simplifying adds no references. -/
theorem mentions_of_simplify {t : Ty μ} (h : t.simplify.Mentions r) : t.Mentions r := by
  induction t using inductChildren with
  | step t ih =>
    have below : ∀ u ∈ t.children.map simplify, u.Mentions r → t.Mentions r := by
      intro u hu h
      obtain ⟨v, hv, rfl⟩ := List.mem_map.1 hu
      exact (mentions_iff t).2 (.inr ⟨v, hv, ih v hv h⟩)
    by_cases hu : t.isUnion = true
    · rw [simplify_of_isUnion hu, mentions_absorb] at h
      obtain ⟨u, hu, h⟩ := mentions_simplifyUnion h
      exact below u hu h
    · obtain ⟨-, href, hchildren⟩ := simplify_of_not_isUnion (Bool.eq_false_iff.2 hu)
      rw [mentions_iff, href, hchildren] at h
      rcases h with h | ⟨u, hu, h⟩
      · exact (mentions_iff t).2 (.inl h)
      · exact below u hu h

end ShapeSchema.Ty
