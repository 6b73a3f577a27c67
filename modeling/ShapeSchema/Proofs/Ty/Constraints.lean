import ShapeSchema.Proofs.Ty.Simplify

/-!
# Constraints of simplified types

Simplification makes up no constraint (`allConstraints_of_simplify`), and a union hands its own on
to the root of its simplified form (`constraints_simplify`). What it gives up are the constraints of
nodes that melt into a union around them: nulls, of which a union keeps one, and unions without
checks, of which it takes over the members (`keeps_constraints`).
-/

namespace ShapeSchema

/-- Annotations take the constraints that they are given. -/
def Metadata.TakesConstraints (μ : Type) [Metadata μ] : Prop :=
  ∀ (a : μ) (cs : List Constraint),
    Metadata.constraints (Metadata.withConstraints a cs) = cs

namespace Ty

variable {μ : Type} [Metadata μ]

/-- The constraints of all nodes. -/
def allConstraints (t : Ty μ) : List Constraint :=
  t.nodes.flatMap fun u => Metadata.constraints u.ann

/-- A union around such a type does not keep it as a member: it keeps one null of several, and takes
over the members of a union without checks. -/
def Melts (t : Ty μ) : Prop :=
  t.isNull = true ∨ (t.isUnion = true ∧ Metadata.hasChecks t.ann = false)

/-- Another union takes the place of a simplified union: all that is left of its members is a union,
or one type next to a null. -/
def GivesWay (t : Ty μ) : Prop :=
  t.isUnion = true ∧ ∃ m, remaining (t.children.map simplify) = [m] ∧
    (m.isUnion = true ∨ (remainingNull (t.children.map simplify)).isSome = true)

/-- A node stands in a type other than directly in a union. -/
def StandsApart (u t : Ty μ) : Prop := u = t ∨ ∃ w ∈ t.nodes, w.isUnion = false ∧ u ∈ w.children

variable {t : Ty μ} {ts : List (Ty μ)} {c : Constraint}

/-! ## Nodes -/

theorem mem_allConstraints_iff :
    c ∈ t.allConstraints ↔
      c ∈ Metadata.constraints t.ann ∨ ∃ u ∈ t.children, c ∈ u.allConstraints := by
  unfold allConstraints
  simp only [List.mem_flatMap]
  exact exists_mem_nodes_iff

theorem mem_allConstraints_of_ann (h : c ∈ Metadata.constraints t.ann) : c ∈ t.allConstraints :=
  mem_allConstraints_iff.2 (.inl h)

theorem mem_allConstraints_of_child {u : Ty μ} (hu : u ∈ t.children) (h : c ∈ u.allConstraints) :
    c ∈ t.allConstraints := mem_allConstraints_iff.2 (.inr ⟨u, hu, h⟩)

theorem mem_allConstraints_prim (p : Prim) (a : μ) :
    c ∈ (prim p a).allConstraints ↔ c ∈ Metadata.constraints a := by
  rw [mem_allConstraints_iff]
  refine or_iff_left ?_
  rintro ⟨u, hu, -⟩
  cases hu

theorem mem_allConstraints_union (ms : List (Ty μ)) (null : Option μ) (a : μ) :
    c ∈ (union ms null a).allConstraints ↔ c ∈ Metadata.constraints a ∨
      (∃ m ∈ ms, c ∈ m.allConstraints) ∨ ∃ n ∈ null, c ∈ Metadata.constraints n := by
  rw [mem_allConstraints_iff]
  show _ ∨ (∃ u ∈ ms ++ nullMember null, _) ↔ _
  simp [nullMember, or_and_right, exists_or, mem_allConstraints_prim, ann]

theorem allConstraints_flatten {keep : μ → Bool} {m : Ty μ} (hm : m ∈ flatten keep t)
    (h : c ∈ m.allConstraints) : c ∈ t.allConstraints :=
  forall_mem_flatten (P := fun u => c ∈ u.allConstraints → c ∈ t.allConstraints)
    (fun _ _ hu _ hv hc => hu (mem_allConstraints_of_child hv hc)) id hm h

theorem allConstraints_laidOut {m : Ty μ} (hm : m ∈ laidOut ts) (h : c ∈ m.allConstraints) :
    ∃ t ∈ ts, c ∈ t.allConstraints := by
  obtain ⟨t, ht, hm⟩ := mem_laidOut.1 hm
  exact ⟨t, ht, allConstraints_flatten hm h⟩

theorem allConstraints_optionalOf {n : μ} (h : c ∈ (optionalOf t n).allConstraints) :
    c ∈ t.allConstraints ∨ c ∈ Metadata.constraints n := by
  unfold optionalOf at h
  split at h
  · exact .inl h
  · exact .inl h
  · simp only [mem_allConstraints_union] at h ⊢
    grind
  · simp only [mem_allConstraints_union] at h
    grind

/-! ## No constraint is made up -/

theorem allConstraints_simplifyUnion {a : μ} (h : c ∈ (simplifyUnion ts a a).allConstraints) :
    (∃ t ∈ ts, c ∈ t.allConstraints) ∨ c ∈ Metadata.constraints a := by
  have member : ∀ m ∈ remaining ts, c ∈ m.allConstraints → ∃ t ∈ ts, c ∈ t.allConstraints :=
    fun m hm => allConstraints_laidOut (laidOut_of_remaining hm).1
  have null : ∀ n, remainingNull ts = some n → c ∈ Metadata.constraints n →
      ∃ t ∈ ts, c ∈ t.allConstraints := fun n hn hc =>
    allConstraints_laidOut (mem_uncovered.1 (laidOut_of_remainingNull hn)).1
      (mem_allConstraints_of_ann hc)
  revert h
  refine simplifyUnion_cases (fun _ h => ?_) (fun t hts _ h => ?_) (fun t n hts hn h => ?_)
    fun _ h => ?_
  · rw [mem_allConstraints_prim] at h
    cases hn : remainingNull ts with
    | none => rw [hn] at h; exact .inr h
    | some n => rw [hn] at h; exact .inl (null n hn h)
  · exact .inl (member t (by rw [hts]; exact List.mem_cons_self) h)
  · rcases allConstraints_optionalOf h with h | h
    · exact .inl (member t (by rw [hts]; exact List.mem_cons_self) h)
    · exact .inl (null n hn h)
  · rcases (mem_allConstraints_union _ _ _).1 h with h | ⟨m, hm, h⟩ | ⟨n, hn, h⟩
    · exact .inr h
    · exact .inl (member m hm h)
    · exact .inl (null n hn h)

variable (hw : Metadata.TakesConstraints μ)
include hw

theorem mem_allConstraints_withConstraints (t : Ty μ) (cs : List Constraint) :
    c ∈ (t.withConstraints cs).allConstraints ↔ c ∈ t.allConstraints ∨ c ∈ cs := by
  unfold withConstraints
  split
  · next hnil => simp [List.isEmpty_iff.1 hnil]
  · have hann : ∀ a, (t.withAnn a).ann = a := fun a => by cases t <;> rfl
    have hchildren : ∀ a, (t.withAnn a).children = t.children := fun a => by cases t <;> rfl
    rw [mem_allConstraints_iff, hann, hchildren, hw, List.mem_append, or_right_comm,
      ← mem_allConstraints_iff]

theorem allConstraints_absorb {a : μ} (h : c ∈ (t.absorb a).allConstraints) :
    c ∈ t.allConstraints ∨ c ∈ Metadata.constraints a := by
  unfold absorb at h
  split at h
  · exact .inl h
  · exact (mem_allConstraints_withConstraints hw t _).1 h

theorem mem_allConstraints_absorb (a : μ) (h : c ∈ t.allConstraints) :
    c ∈ (t.absorb a).allConstraints := by
  unfold absorb
  split
  · exact h
  · exact (mem_allConstraints_withConstraints hw t _).2 (.inl h)

/-- Every constraint of a simplified type stands in the type. -/
theorem allConstraints_of_simplify (h : c ∈ t.simplify.allConstraints) : c ∈ t.allConstraints := by
  induction t using inductChildren with
  | step t ih =>
    have below : ∀ u ∈ t.children.map simplify, c ∈ u.allConstraints → c ∈ t.allConstraints := by
      intro u hu h
      obtain ⟨v, hv, rfl⟩ := List.mem_map.1 hu
      exact mem_allConstraints_of_child hv (ih v hv h)
    by_cases hu : t.isUnion = true
    · rw [simplify_of_isUnion hu] at h
      rcases allConstraints_absorb hw h with h | h
      · rcases allConstraints_simplifyUnion h with ⟨u, hu, h⟩ | h
        · exact below u hu h
        · exact mem_allConstraints_of_ann h
      · exact mem_allConstraints_of_ann h
    · obtain ⟨hann, -, hchildren⟩ := simplify_of_not_isUnion (Bool.eq_false_iff.2 hu)
      rw [mem_allConstraints_iff, hann, hchildren] at h
      rcases h with h | ⟨u, hu, h⟩
      · exact mem_allConstraints_of_ann h
      · exact below u hu h

/-! ## A union's own constraints -/

theorem constraints_withConstraints (t : Ty μ) (cs : List Constraint) :
    Metadata.constraints (t.withConstraints cs).ann = Metadata.constraints t.ann ++ cs := by
  unfold withConstraints
  split
  · next hnil => rw [List.isEmpty_iff.1 hnil, List.append_nil]
  · have hann : ∀ a, (t.withAnn a).ann = a := fun a => by cases t <;> rfl
    rw [hann, hw]

theorem constraints_absorb (h : t.isUnion = false) (a : μ) :
    Metadata.constraints (t.absorb a).ann
      = Metadata.constraints t.ann ++ Metadata.constraints a := by
  unfold absorb
  rw [if_neg (by simp [h]), constraints_withConstraints hw]

/-- A union whose place no other union takes hands its constraints on to the root. -/
theorem constraints_simplify (h : ¬ t.GivesWay) :
    ∀ c ∈ Metadata.constraints t.ann, c ∈ Metadata.constraints t.simplify.ann := by
  by_cases hu : t.isUnion = true
  · rw [simplify_of_isUnion hu]
    intro c hc
    refine simplifyUnion_cases (fun _ => ?_) (fun m hm _ => ?_) (fun m n hm hn => ?_) fun _ => hc
    · rw [constraints_absorb hw rfl]
      exact List.mem_append_right _ hc
    · have hm' : m.isUnion = false := Bool.eq_false_iff.2 fun hm' => h ⟨hu, m, hm, .inl hm'⟩
      rw [constraints_absorb hw hm']
      exact List.mem_append_right _ hc
    · exact absurd ⟨hu, m, hm, .inr (by rw [hn]; rfl)⟩ h
  · rw [(simplify_of_not_isUnion (Bool.eq_false_iff.2 hu)).1]
    exact fun c hc => hc

/-! ## Constraints below the root -/

omit hw

/-- A constraint stands in one of the members, other than null, that a type contributes to a union
around it. -/
def Carries (t : Ty μ) (c : Constraint) : Prop :=
  ∃ m ∈ flatten Metadata.hasChecks t, m.isNull = false ∧ c ∈ m.allConstraints

theorem Carries.mem (h : t.Carries c) : c ∈ t.allConstraints := by
  obtain ⟨m, hm, -, h⟩ := h
  exact allConstraints_flatten hm h

theorem carries_of_not_melts (h : ¬ t.Melts) (hc : c ∈ t.allConstraints) : t.Carries c := by
  unfold Melts at h
  push Not at h
  have hflat : FlatIn Metadata.hasChecks t := fun hu => Bool.ne_false_iff.1 (h.2 hu)
  refine ⟨t, ?_, Bool.eq_false_iff.2 h.1, hc⟩
  rw [flatten_of_flatIn hflat]
  exact List.mem_cons_self

theorem not_melts_simplify {u : Ty μ} (h : t.isUnion = false) (hu : u ∈ t.children) :
    ¬ t.simplify.Melts := by
  cases t with
  | prim p a => cases hu
  | union ms null a => cases h
  | _ => simp [Melts, simplify, isNull, nullAnn?, isUnion]

/-- A union of types that it does not take apart carries their constraints. -/
theorem carries_union {ms : List (Ty μ)} {m : Ty μ} (hflat : ∀ m ∈ ms, FlatIn Metadata.hasChecks m)
    (hm : m ∈ ms) (hnull : m.isNull = false) (h : c ∈ m.allConstraints) (null : Option μ) (a : μ) :
    (union ms null a).Carries c := by
  unfold Carries
  rw [flatten, flattenAll_of_flatIn hflat]
  split
  · exact ⟨_, List.mem_cons_self, rfl, (mem_allConstraints_union _ _ _).2 (.inr (.inl ⟨m, hm, h⟩))⟩
  · exact ⟨m, List.mem_append_left _ hm, hnull, h⟩

theorem carries_optionalOf (hflat : FlatIn Metadata.hasChecks t) (hnull : t.isNull = false)
    (h : c ∈ t.allConstraints) (n : μ) : (optionalOf t n).Carries c := by
  unfold optionalOf
  split
  · cases hnull
  · exact ⟨_, by rw [flatten_of_flatIn hflat]; exact List.mem_cons_self, rfl, h⟩
  · next ms b =>
    refine ⟨union ms (some n) b, ?_, rfl, ?_⟩
    · rw [flatten, if_pos (show Metadata.hasChecks b = true from hflat rfl)]
      exact List.mem_cons_self
    · rw [mem_allConstraints_union] at h ⊢
      grind
  · exact carries_union (fun m hm => by rwa [List.mem_singleton.1 hm]) List.mem_cons_self hnull h
      _ _

/-- What a member of a union carries, the simplified union carries as well. -/
theorem carries_simplifyUnion (hl : Metadata.Legible μ) (ht : t ∈ ts) (h : t.Carries c) (a b : μ) :
    (simplifyUnion ts a b).Carries c := by
  have hremains : ∃ m ∈ remaining ts, c ∈ m.allConstraints := by
    obtain ⟨m, hm, hnull, h⟩ := h
    rcases accounted hl (mem_laidOut.2 ⟨t, ht, hm⟩) with hmem | ⟨hnull', -⟩ | ⟨u, hu, hcover⟩
    · exact ⟨m, hmem, h⟩
    · rw [hnull] at hnull'
      cases hnull'
    · obtain ⟨ms, null, a, rfl, hnull' | hm⟩ := (coveredByUnion_iff hl).1 hcover
      · rw [hnull] at hnull'
        cases hnull'.1
      · exact ⟨_, hu, (mem_allConstraints_union _ _ _).2 (.inr (.inl ⟨m, hm, h⟩))⟩
  obtain ⟨m, hm, h⟩ := hremains
  have hflat : ∀ m ∈ remaining ts, FlatIn Metadata.hasChecks m :=
    fun m hm => flatIn_of_mem_laidOut (laidOut_of_remaining hm).1
  have hnull := (laidOut_of_remaining hm).2
  refine simplifyUnion_cases (fun hts => ?_) (fun u hts _ => ?_) (fun u n hts _ => ?_) fun _ => ?_
  · rw [hts] at hm
    cases hm
  · obtain rfl : m = u := by rwa [hts, List.mem_singleton] at hm
    exact ⟨m, by rw [flatten_of_flatIn (hflat m hm)]; exact List.mem_cons_self, hnull, h⟩
  · obtain rfl : m = u := by rwa [hts, List.mem_singleton] at hm
    exact carries_optionalOf (hflat m hm) hnull h n
  · exact carries_union hflat hm hnull h _ a

include hw

theorem Carries.absorb (h : t.Carries c) (a : μ) : (t.absorb a).Carries c := by
  unfold Ty.absorb
  split
  · exact h
  · next hu =>
    have hwith : (t.withConstraints (Metadata.constraints a)).isNull = t.isNull ∧
        (t.withConstraints (Metadata.constraints a)).isUnion = t.isUnion := by
      unfold withConstraints
      split
      · exact ⟨rfl, rfl⟩
      · cases t with
        | prim p => cases p <;> exact ⟨rfl, rfl⟩
        | _ => exact ⟨rfl, rfl⟩
    obtain ⟨m, hm, hnull, h⟩ := h
    rw [flatten_of_flatIn fun hu' => absurd hu' hu, List.mem_singleton] at hm
    subst hm
    refine carries_of_not_melts ?_ ((mem_allConstraints_withConstraints hw m _).2 (.inl h))
    unfold Melts
    rw [hwith.1, hwith.2, hnull]
    grind

/-- A simplified type carries what a simplified child carries. -/
theorem carries_of_child (hl : Metadata.Legible μ) {u : Ty μ} (hu : u ∈ t.children)
    (h : u.simplify.Carries c) : t.simplify.Carries c := by
  have hmem : u.simplify ∈ t.children.map simplify := List.mem_map_of_mem hu
  by_cases hunion : t.isUnion = true
  · rw [simplify_of_isUnion hunion]
    exact (carries_simplifyUnion hl hmem h _ _).absorb hw _
  · obtain ⟨-, -, hchildren⟩ := simplify_of_not_isUnion (Bool.eq_false_iff.2 hunion)
    have hc : c ∈ t.simplify.allConstraints :=
      mem_allConstraints_of_child (by rwa [hchildren]) h.mem
    exact carries_of_not_melts (not_melts_simplify (Bool.eq_false_iff.2 hunion) hu) hc

/-- What a node is simplified to goes into the simplified type if the node stands apart from any
union or does not melt. -/
theorem carries_of_node (hl : Metadata.Legible μ) {u : Ty μ} (hc : c ∈ u.simplify.allConstraints)
    (h : (∃ w ∈ t.nodes, w.isUnion = false ∧ u ∈ w.children) ∨
      (u ∈ t.nodes ∧ ¬ u.simplify.Melts)) : t.simplify.Carries c := by
  induction t using inductChildren with
  | step t ih =>
    simp only [mem_nodes_iff (t := t)] at h
    rcases h with ⟨w, rfl | ⟨v, hv, hwv⟩, hunion, hu⟩ | ⟨rfl | ⟨v, hv, hu⟩, hmelts⟩
    · obtain ⟨-, -, hchildren⟩ := simplify_of_not_isUnion hunion
      refine carries_of_not_melts (not_melts_simplify hunion hu) (mem_allConstraints_of_child ?_ hc)
      rw [hchildren]
      exact List.mem_map_of_mem hu
    · exact carries_of_child hw hl hv (ih v hv (.inl ⟨w, hwv, hunion, hu⟩))
    · exact carries_of_not_melts hmelts hc
    · exact carries_of_child hw hl hv (ih v hv (.inr ⟨hu, hmelts⟩))

omit hw

theorem remainingNull_of_optional {ms : List (Ty μ)} {n a : μ}
    (h : union ms (some n) a ∈ remaining ts) : remainingNull ts = none := by
  cases hn : remainingNull ts with
  | none => rfl
  | some m =>
    rcases (mem_uncovered.1 (laidOut_of_remainingNull hn)).2 with hunion | hcover
    · cases hunion
    · have := hcover _ (laidOut_of_remaining h).1 rfl
      cases this

include hw

/-- The null that a union is left with keeps its constraints. -/
theorem keeps_remainingNull {n : μ} (hu : t.isUnion = true)
    (hn : remainingNull (t.children.map simplify) = some n) :
    ∀ c ∈ Metadata.constraints n, c ∈ t.simplify.allConstraints := by
  intro c hc
  rw [simplify_of_isUnion hu]
  refine mem_allConstraints_absorb hw _ ?_
  refine simplifyUnion_cases (fun _ => ?_) (fun m _ hnone => ?_) (fun m k hm hk => ?_) fun _ => ?_
  · rw [hn]
    exact (mem_allConstraints_prim .null n).2 hc
  · rw [hn] at hnone
    cases hnone
  · obtain rfl : n = k := Option.some.inj (hn.symm.trans hk)
    have hmem : m ∈ remaining (t.children.map simplify) := by
      rw [hm]
      exact List.mem_cons_self
    unfold optionalOf
    split
    · cases (laidOut_of_remaining hmem).2
    · rw [remainingNull_of_optional hmem] at hn
      cases hn
    · exact (mem_allConstraints_union _ _ _).2 (.inr (.inr ⟨n, rfl, hc⟩))
    · exact (mem_allConstraints_union _ _ _).2 (.inl hc)
  · exact (mem_allConstraints_union _ _ _).2 (.inr (.inr ⟨n, hn, hc⟩))

/-- What simplification keeps of the constraints of a type. It adds none. A node that stands apart
from any union, or does not melt into the union around it, keeps its own constraints, and if it is a
union those of the null that it is left with. Those of the root are at the root again. Only the
constraints of a union that gives way to another one are left open. -/
theorem keeps_constraints (hl : Metadata.Legible μ) (t : Ty μ) :
    (∀ c ∈ t.simplify.allConstraints, c ∈ t.allConstraints) ∧
    (∀ u ∈ t.nodes, u.StandsApart t ∨ ¬ u.simplify.Melts →
      (¬ u.GivesWay → ∀ c ∈ Metadata.constraints u.ann, c ∈ t.simplify.allConstraints) ∧
      (u.isUnion = true → ∀ n, remainingNull (u.children.map simplify) = some n →
        ∀ c ∈ Metadata.constraints n, c ∈ t.simplify.allConstraints)) ∧
    (¬ t.GivesWay → ∀ c ∈ Metadata.constraints t.ann, c ∈ Metadata.constraints t.simplify.ann) := by
  refine ⟨fun c => allConstraints_of_simplify hw, fun u hu hplace => ?_, constraints_simplify hw⟩
  have lift : ∀ c ∈ u.simplify.allConstraints, c ∈ t.simplify.allConstraints := by
    intro c hc
    rcases hplace with (rfl | happart) | hmelts
    · exact hc
    · exact (carries_of_node hw hl hc (.inl happart)).mem
    · exact (carries_of_node hw hl hc (.inr ⟨hu, hmelts⟩)).mem
  refine ⟨fun hway c hc => lift c ?_, fun hunion n hn c hc => lift c ?_⟩
  · exact mem_allConstraints_of_ann (constraints_simplify hw hway c hc)
  · exact keeps_remainingNull hw hunion hn c hc

end Ty

open Ty

/-- Amounts that are not zero, or a null once they are settled. -/
def amount : Ty Authored :=
  .union [.prim .int {}, .prim .string {}] (some ⟨[⟨.assert, none, "settled"⟩], {}⟩)
    ⟨[⟨.assert, none, "this != 0"⟩], {}⟩

theorem remaining_amount :
    remaining (amount.children.map simplify) = [.prim .int {}, .prim .string {}] ∧
      remainingNull (amount.children.map simplify) = some ⟨[⟨.assert, none, "settled"⟩], {}⟩ :=
  remaining_of_nodup Authored.legible
    (show laidOut _ = [.prim .int {}, .prim .string {}, .prim .null _] from rfl) (by decide)
    (by simp)

/-- A list of amounts, a flag, or a null as long as it is open. -/
def entry : Ty Authored :=
  .union [.list amount {}, .prim .bool {}] (some ⟨[⟨.assert, none, "open"⟩], {}⟩)
    ⟨[⟨.assert, none, "this"⟩], {}⟩

theorem remaining_entry :
    remaining (entry.children.map simplify) = [.list amount.simplify {}, .prim .bool {}] ∧
      remainingNull (entry.children.map simplify) = some ⟨[⟨.assert, none, "open"⟩], {}⟩ :=
  remaining_of_nodup Authored.legible
    (show laidOut _ = [.list amount.simplify {}, .prim .bool {}, .prim .null _] from rfl)
    (by decide) (by simp)

theorem keeps_constraints_entry : Metadata.TakesConstraints Authored ∧
    Metadata.Legible Authored ∧ ¬ amount.GivesWay ∧ amount.StandsApart entry ∧ ¬ entry.GivesWay ∧
    ⟨.assert, none, "this != 0"⟩ ∈ entry.simplify.allConstraints ∧
    ⟨.assert, none, "settled"⟩ ∈ entry.simplify.allConstraints ∧
    ⟨.assert, none, "open"⟩ ∈ entry.simplify.allConstraints ∧
    ⟨.assert, none, "this"⟩ ∈ Metadata.constraints entry.simplify.ann := by
  have hw : Metadata.TakesConstraints Authored := fun _ _ => rfl
  have hamount : ¬ amount.GivesWay := by
    rintro ⟨-, m, hm, -⟩
    rw [remaining_amount.1] at hm
    cases hm
  have happart : amount.StandsApart entry :=
    .inr ⟨.list amount {}, List.mem_cons_of_mem _ List.mem_cons_self, rfl, List.mem_cons_self⟩
  have hentry : ¬ entry.GivesWay := by
    rintro ⟨-, m, hm, -⟩
    rw [remaining_entry.1] at hm
    cases hm
  have hmem : amount ∈ entry.nodes :=
    List.mem_cons_of_mem _ (List.mem_cons_of_mem _ List.mem_cons_self)
  obtain ⟨-, hnodes, hroot⟩ := keeps_constraints hw Authored.legible entry
  have kept := hnodes amount hmem (.inl happart)
  refine ⟨hw, Authored.legible, hamount, happart, hentry, ?_, ?_, ?_, ?_⟩
  · exact kept.1 hamount _ List.mem_cons_self
  · exact kept.2 rfl _ remaining_amount.2 _ List.mem_cons_self
  · exact (hnodes entry (mem_nodes entry) (.inl (.inl rfl))).2 rfl _ remaining_entry.2 _
      List.mem_cons_self
  · exact hroot hentry _ List.mem_cons_self

/-- Directly in a union, the amounts lose their assert, since nothing among it is a check, and the
null of the union makes way for theirs. -/
def amountOrFlag : Ty Authored :=
  .union [amount, .prim .bool {}] (some ⟨[⟨.assert, none, "open"⟩], {}⟩) {}

theorem simplify_amountOrFlag : amountOrFlag.simplify =
    .union [.prim .int {}, .prim .string {}, .prim .bool {}]
      (some ⟨[⟨.assert, none, "settled"⟩], {}⟩) {} := by
  have hamount : amount.simplify = amount := by
    rw [simplify_of_isUnion rfl, simplifyUnion_eq, remaining_amount.1, remaining_amount.2]
    rfl
  have hchildren : amountOrFlag.children.map simplify = amountOrFlag.children := by
    show [amount.simplify, _, _] = _
    rw [hamount]
    rfl
  have hremaining := remaining_of_nodup Authored.legible
    (show laidOut amountOrFlag.children = [.prim .int {}, .prim .string {},
      .prim .null ⟨[⟨.assert, none, "settled"⟩], {}⟩, .prim .bool {}, .prim .null _] from rfl)
    (by decide) (by simp)
  rw [simplify_of_isUnion rfl, hchildren, simplifyUnion_eq, hremaining.1, hremaining.2]
  rfl

theorem loses_constraints :
    ⟨.assert, none, "this != 0"⟩ ∈ amountOrFlag.allConstraints ∧
    ⟨.assert, none, "this != 0"⟩ ∉ amountOrFlag.simplify.allConstraints ∧
    ⟨.assert, none, "open"⟩ ∈ amountOrFlag.allConstraints ∧
    ⟨.assert, none, "open"⟩ ∉ amountOrFlag.simplify.allConstraints := by
  rw [simplify_amountOrFlag]
  decide

end ShapeSchema
