import Mathlib.Algebra.Order.BigOperators.Group.List
import ShapeSchema.Proofs.Ty.NullApart

/-!
# Simplified types

What simplification makes of a type is in normal form in every union at every depth
(`normalForm_simplify`): the members differ, none of them is null or a union without checks, and
there are two of them or one next to a null. Where annotations are told apart by their text, it is
reduced as well (`everyUnion_simplify`): no member is covered by another. Both are properties that
simplification brings about wherever it puts a union together (`Arises`).

A reduced type is nearly simplified, but not quite: a null that a union got when another one gave
way to it may be covered by a member that allows null itself. Such nulls are left out by the next
simplification, and nothing else changes then (`simplify_of_reduced`, `nodeCount_simplify_lt`). So
simplifying twice is simplifying once exactly on the types whose simplified form has no such null
(`simplify_simplify_iff`).
-/

namespace ShapeSchema

namespace Ty

variable {μ : Type}

/-! ## Properties of every union -/

/-- Every union of a type, at any depth, has a property. -/
def EveryUnion (P : List (Ty μ) → Option μ → μ → Prop) (t : Ty μ) : Prop :=
  ∀ ms null a, union ms null a ∈ t.nodes → P ms null a

section

variable {P : List (Ty μ) → Option μ → μ → Prop} {t : Ty μ}

theorem everyUnion_iff : t.EveryUnion P ↔
    (∀ ms null a, t = union ms null a → P ms null a) ∧ ∀ u ∈ t.children, u.EveryUnion P := by
  constructor
  · intro h
    exact ⟨fun ms null a ht => h ms null a (ht ▸ mem_nodes t),
      fun u hu ms null a hmem => h ms null a (mem_nodes_of_child hu hmem)⟩
  · rintro ⟨hroot, hchildren⟩ ms null a hmem
    rcases mem_nodes_iff.1 hmem with ht | ⟨u, hu, hmem⟩
    · exact hroot ms null a ht.symm
    · exact hchildren u hu ms null a hmem

theorem everyUnion_of_children (hu : t.isUnion = false) (h : ∀ u ∈ t.children, u.EveryUnion P) :
    t.EveryUnion P := by
  refine everyUnion_iff.2 ⟨?_, h⟩
  rintro ms null a rfl
  cases hu

theorem EveryUnion.child {u : Ty μ} (h : t.EveryUnion P) (hu : u ∈ t.children) : u.EveryUnion P :=
  (everyUnion_iff.1 h).2 u hu

theorem everyUnion_prim (p : Prim) (a : μ) : (prim p a).EveryUnion P :=
  everyUnion_of_children rfl fun _ hu => absurd hu List.not_mem_nil

theorem everyUnion_union {ms : List (Ty μ)} {null : Option μ} {a : μ} :
    (union ms null a).EveryUnion P ↔ P ms null a ∧ ∀ m ∈ ms, m.EveryUnion P := by
  rw [everyUnion_iff]
  constructor
  · exact fun h => ⟨h.1 ms null a rfl, fun m hm => h.2 m (List.mem_append_left _ hm)⟩
  · rintro ⟨hroot, hms⟩
    constructor
    · intro ms' null' a' heq
      injection heq with h₁ h₂ h₃
      rwa [← h₁, ← h₂, ← h₃]
    · intro u hu
      rcases List.mem_append.1 hu with hu | hu
      · exact hms u hu
      · obtain ⟨n, rfl⟩ := eq_null_of_isNull (isNull_of_mem_nullMember hu)
        exact everyUnion_prim .null n

/-- The annotation of a type that is no union does not matter. -/
theorem EveryUnion.withAnn (h : t.EveryUnion P) (hu : t.isUnion = false) (a : μ) :
    (t.withAnn a).EveryUnion P := by
  have hparts := (everyUnion_iff.1 h).2
  cases t with
  | union ms null b => cases hu
  | _ => exact everyUnion_of_children rfl hparts

theorem EveryUnion.flatten {keep : μ → Bool} {m : Ty μ} (h : t.EveryUnion P)
    (hm : m ∈ flatten keep t) : m.EveryUnion P :=
  forall_mem_flatten (fun _ _ ht _ hu => ht.child hu) h hm

theorem isUnion_of_isOptional (h : t.isOptional = true) (hn : t.isNull = false) :
    t.isUnion = true := by
  cases t with
  | union ms null a => rfl
  | prim p a =>
    cases p <;> cases h
    cases hn
  | _ => cases h

/-- Making a type optional annotates a new union like its null. -/
theorem optionalOf_of_not_isUnion (hu : t.isUnion = false) (hn : t.isNull = false) (n : μ) :
    optionalOf t n = union [t] (some n) n := by
  cases t with
  | prim p b => cases p <;> first | rfl | cases hn
  | union ms null b => cases hu
  | _ => rfl

end

/-! ## Reduced unions -/

variable [Metadata μ]

/-- Members that a simplified union may have. -/
structure Choice (ms : List (Ty μ)) : Prop where
  flat : ∀ m ∈ ms, FlatIn Metadata.hasChecks m
  notNull : ∀ m ∈ ms, m.isNull = false
  distinct : ms.Nodup
  uncovered : ∀ m ∈ ms, m.isUnion = true ∨
    ∀ u ∈ ms, u.isUnion = true → coveredByUnion m u = false

/-- What a simplified union looks like. One member is enough next to a null; the union then stands
for the null that it got, and is annotated like it. -/
structure Reduced (ms : List (Ty μ)) (null : Option μ) (a : μ) : Prop extends Choice ms where
  enough : 2 ≤ ms.length ∨ ∃ m, ms = [m] ∧ m.isUnion = false ∧ null = some a

/-- A union with a null of its own has no member that allows null as well. -/
def NullOnce (ms : List (Ty μ)) (null : Option μ) (_ : μ) : Prop :=
  null.isSome = true → ∀ m ∈ ms, m.isOptional = false

variable {t : Ty μ} {ms ts : List (Ty μ)} {null : Option μ} {a : μ}

theorem nullApart_of_reduced (h : t.EveryUnion Reduced) : t.NullApart := fun ms null a hmem =>
  ⟨(h ms null a hmem).notNull, fun _ hn => isNull_of_mem_nullMember hn⟩

theorem choice_remaining (hl : Metadata.Legible μ) (ts : List (Ty μ)) : Choice (remaining ts) where
  flat m hm := flatIn_of_mem_laidOut (laidOut_of_remaining hm).1
  notNull m hm := (laidOut_of_remaining hm).2
  distinct := by
    refine (apart_dedupe _).imp fun hapart heq => ?_
    rw [(same_iff hl).2 heq] at hapart
    cases hapart
  uncovered m hm := by
    have hshown := (mem_uncovered.1 ((mem_remaining hl).1 hm).1).2
    exact hshown.imp_right fun h u hu => h u (laidOut_of_remaining hu).1

/-- Distinct types, none of them null or a union, are such members. -/
theorem choice_of_plain (hplain : ∀ m ∈ ms, m.isUnion = false)
    (hnull : ∀ m ∈ ms, m.isNull = false) (nd : ms.Nodup) : Choice ms where
  flat m hm h := by
    rw [hplain m hm] at h
    cases h
  notNull := hnull
  distinct := nd
  uncovered m _ := by
    refine .inr fun u hu h => ?_
    rw [hplain u hu] at h
    cases h

/-! ## Simplifying -/

/-- A property that simplification brings about: the unions that it puts together have it, and keep
it when they get a null. -/
structure Arises (P : List (Ty μ) → Option μ → μ → Prop) : Prop where
  several : ∀ ts a, 2 ≤ (remaining ts).length → P (remaining ts) (remainingNull ts) a
  single : ∀ m n, m.isUnion = false → m.isNull = false → P [m] (some n) n
  gains : ∀ ms n a, P ms none a → P ms (some n) a

section

variable {P : List (Ty μ) → Option μ → μ → Prop}

theorem Arises.optionalOf (hp : Arises P) (h : t.EveryUnion P) (hn : t.isNull = false) (n : μ) :
    (optionalOf t n).EveryUnion P := by
  by_cases hu : t.isUnion = true
  · cases t with
    | union ms null a =>
      cases null with
      | some b => exact h
      | none =>
        obtain ⟨hroot, hms⟩ := everyUnion_union.1 h
        exact everyUnion_union.2 ⟨hp.gains ms n a hroot, hms⟩
    | _ => cases hu
  · have hu := Bool.eq_false_iff.2 hu
    rw [optionalOf_of_not_isUnion hu hn]
    refine everyUnion_union.2 ⟨hp.single t n hu hn, fun m hm => ?_⟩
    rwa [List.mem_singleton.1 hm]

theorem Arises.simplifyUnion (hp : Arises P) (h : ∀ t ∈ ts, t.EveryUnion P) (a b : μ) :
    (simplifyUnion ts a b).EveryUnion P := by
  have hrest : ∀ t ∈ remaining ts, t.EveryUnion P := by
    intro t ht
    obtain ⟨u, hu, ht⟩ := mem_laidOut.1 (laidOut_of_remaining ht).1
    exact (h u hu).flatten ht
  refine simplifyUnion_cases ?none ?one ?optional ?several
  case none =>
    intro _
    exact everyUnion_prim .null _
  case one =>
    intro t ht _
    exact hrest t (by simp [ht])
  case optional =>
    intro t n ht _
    have hmem : t ∈ remaining ts := by simp [ht]
    exact hp.optionalOf (hrest t hmem) (laidOut_of_remaining hmem).2 n
  case several =>
    intro htwo
    exact everyUnion_union.2 ⟨hp.several ts a htwo, hrest⟩

theorem EveryUnion.absorb (h : t.EveryUnion P) (a : μ) : (t.absorb a).EveryUnion P := by
  unfold Ty.absorb Ty.withConstraints
  split
  · exact h
  · next hu =>
    split
    · exact h
    · exact h.withAnn (Bool.eq_false_iff.2 hu) _

theorem Arises.simplify (hp : Arises P) (t : Ty μ) : t.simplify.EveryUnion P := by
  induction t using inductChildren with
  | step t ih =>
    have hparts : ∀ u ∈ t.children.map Ty.simplify, u.EveryUnion P := by
      rw [List.forall_mem_map]
      exact ih
    by_cases hu : t.isUnion = true
    · rw [simplify_of_isUnion hu]
      exact (hp.simplifyUnion hparts _ _).absorb _
    · have hu := Bool.eq_false_iff.2 hu
      have hchildren := (simplify_of_not_isUnion hu).2.2
      rw [← hchildren] at hparts
      refine everyUnion_of_children ?_ hparts
      cases t <;> first | rfl | cases hu

end

theorem arises_reduced (hl : Metadata.Legible μ) : Arises (μ := μ) Reduced where
  several ts _ htwo := ⟨choice_remaining hl ts, .inl htwo⟩
  single m n hu hn :=
    ⟨choice_of_plain (by simpa using hu) (by simpa using hn) (List.nodup_singleton m),
      .inr ⟨m, rfl, hu, rfl⟩⟩
  gains ms n a h := by
    refine ⟨h.toChoice, .inl ?_⟩
    rcases h.enough with htwo | ⟨_, -, -, hnull⟩
    · exact htwo
    · cases hnull

/-- Every union of a simplified type is reduced. -/
theorem everyUnion_simplify (hl : Metadata.Legible μ) (t : Ty μ) :
    t.simplify.EveryUnion Reduced := (arises_reduced hl).simplify t

/-- The normal form of unions: members that differ, none of them null or a union without checks, and
at least two of them or one next to a null. -/
structure NormalForm (ms : List (Ty μ)) (null : Option μ) : Prop where
  apart : ms.Pairwise fun a b => a.same b = false
  notNull : ∀ m ∈ ms, m.isNull = false
  checked : ∀ m ∈ ms, m.isUnion = true → Metadata.hasChecks m.ann = true
  enough : 2 ≤ ms.length ∨ ms.length = 1 ∧ null.isSome = true

theorem arises_normalForm : Arises fun (ms : List (Ty μ)) null _ => NormalForm ms null where
  several ts _ htwo := {
    apart := apart_dedupe _
    notNull := fun _ hm => (laidOut_of_remaining hm).2
    checked := fun _ hm => flatIn_of_mem_laidOut (laidOut_of_remaining hm).1
    enough := .inl htwo }
  single m n hu hn := {
    apart := List.pairwise_singleton _ m
    notNull := by simpa using hn
    checked := by simp [hu]
    enough := .inr ⟨rfl, rfl⟩ }
  gains ms n a h := { h with enough := h.enough.imp_right fun hone => ⟨hone.1, rfl⟩ }

/-- Simplification brings every union at every depth into normal form, whatever the annotations. -/
theorem normalForm_simplify (t : Ty μ) :
    t.simplify.EveryUnion fun ms null _ => NormalForm ms null := arises_normalForm.simplify t

/-! ## Simplifying reduced types -/

/-- A union covers null exactly if it allows null. -/
theorem coveredByUnion_null (hl : Metadata.Legible μ) (h : t.NullApart) (hu : t.isUnion = true)
    (n : μ) : coveredByUnion (prim .null n) t = t.isOptional := by
  cases t with
  | union ms null a =>
    have hno : (ms.any fun m => m.same (prim .null n)) = false := by
      refine List.any_eq_false.2 fun m hm hsame => ?_
      have hm := (nullApart_union.1 h m hm).1
      rw [(same_iff hl).1 hsame] at hm
      cases hm
    show ((true && null.isSome) || _) = null.isSome
    rw [hno, Bool.true_and, Bool.or_false]
  | _ => cases hu

theorem any_coveredByUnion_null (hl : Metadata.Legible μ) (h : Choice ms)
    (hms : ∀ m ∈ ms, m.NullApart) (n : μ) :
    (ms.filter isUnion).any (coveredByUnion (prim .null n)) = ms.any isOptional := by
  rw [List.any_filter, Bool.eq_iff_iff, List.any_eq_true, List.any_eq_true]
  refine exists_congr fun m => and_congr_right fun hm => ?_
  rw [Bool.and_eq_true]
  constructor
  · rintro ⟨hu, hcovers⟩
    rwa [← coveredByUnion_null hl (hms m hm) hu n]
  · intro hopt
    have hu := isUnion_of_isOptional hopt (h.notNull m hm)
    exact ⟨hu, by rwa [coveredByUnion_null hl (hms m hm) hu]⟩

theorem laidOut_of_choice (h : Choice ms) (null : Option μ) :
    laidOut (ms ++ nullMember null) = ms ++ nullMember null := by
  refine flattenAll_of_flatIn fun t ht => ?_
  rcases List.mem_append.1 ht with ht | ht
  · exact h.flat t ht
  · obtain ⟨n, rfl⟩ := eq_null_of_isNull (isNull_of_mem_nullMember ht)
    exact fun hu => by cases hu

/-- Such members do not cover one another, and they cover null if one of them allows it. -/
theorem uncovered_of_choice (hl : Metadata.Legible μ) (h : Choice ms)
    (hms : ∀ m ∈ ms, m.NullApart) (null : Option μ) :
    uncovered (ms ++ nullMember null)
      = ms ++ nullMember (if ms.any isOptional then none else null) := by
  have hunions : (ms ++ nullMember null).filter isUnion = ms.filter isUnion := by
    rw [List.filter_append]
    cases null <;> exact List.append_nil _
  unfold uncovered
  rw [laidOut_of_choice h, hunions, List.filter_append]
  congr 1
  · refine List.filter_eq_self.2 fun m hm => ?_
    rw [Bool.or_eq_true, Bool.not_eq_true', List.any_eq_false]
    refine (h.uncovered m hm).imp_right fun hfree u hu => ?_
    obtain ⟨hmem, hunion⟩ := List.mem_filter.1 hu
    exact Bool.eq_false_iff.1 (hfree u hmem hunion)
  · cases null with
    | none => split <;> rfl
    | some n =>
      show [prim .null n].filter _ = _
      rw [List.filter_singleton, any_coveredByUnion_null hl h hms n]
      cases ms.any isOptional <;> rfl

/-- Of such members all remain, and their null does unless one of them allows null. -/
theorem remaining_of_choice (hl : Metadata.Legible μ) (h : Choice ms)
    (hms : ∀ m ∈ ms, m.NullApart) (null : Option μ) :
    remaining (ms ++ nullMember null) = ms ∧
      remainingNull (ms ++ nullMember null) = if ms.any isOptional then none else null := by
  have hmembers (null : Option μ) : (ms ++ nullMember null).filter (fun t => !t.isNull) = ms := by
    have hself : ms.filter (fun t => !t.isNull) = ms :=
      List.filter_eq_self.2 fun m hm => by rw [h.notNull m hm]; rfl
    rw [List.filter_append, hself]
    cases null <;> exact List.append_nil ms
  have hnull (null : Option μ) : (ms ++ nullMember null).findSome? nullAnn? = null := by
    have hnone : ms.findSome? nullAnn? = none :=
      List.findSome?_eq_none_iff.2 fun m hm => by simpa [isNull] using h.notNull m hm
    rw [List.findSome?_append, hnone]
    cases null <;> rfl
  have hapart : Apart ms :=
    h.distinct.imp fun hne => Bool.eq_false_iff.2 fun hs => hne ((same_iff hl).1 hs)
  unfold remaining remainingNull
  rw [uncovered_of_choice hl h hms, hmembers, hnull]
  exact ⟨dedupe_of_apart hapart, rfl⟩

/-- Several members that remain are put together again. -/
theorem simplifyUnion_of_two_le (h : 2 ≤ (remaining ts).length) (a b : μ) :
    simplifyUnion ts a b = union (remaining ts) (remainingNull ts) a := by
  rw [simplifyUnion_eq]
  rcases hts : remaining ts with _ | ⟨t, _ | ⟨u, us⟩⟩
  · simp [hts] at h
  · simp [hts] at h
  · rfl

/-- A union of such members is put together again. -/
theorem simplifyUnion_of_reduced (hl : Metadata.Legible μ) (h : Reduced ms null a)
    (hms : ∀ m ∈ ms, m.NullApart) (hnull : NullOnce ms null a) :
    simplifyUnion (ms ++ nullMember null) a a = union ms null a := by
  obtain ⟨hmembers, hrest⟩ := remaining_of_choice hl h.toChoice hms null
  have hkept : remainingNull (ms ++ nullMember null) = null := by
    rw [hrest]
    split
    · next hany =>
      obtain ⟨m, hm, hopt⟩ := List.any_eq_true.1 hany
      cases null with
      | none => rfl
      | some n =>
        rw [hnull rfl m hm] at hopt
        cases hopt
    · rfl
  rcases h.enough with htwo | ⟨m, rfl, hu, rfl⟩
  · rw [simplifyUnion_of_two_le (by rwa [hmembers]), hmembers, hkept]
  · rw [simplifyUnion_eq, hmembers, hkept]
    exact optionalOf_of_not_isUnion hu (h.notNull m List.mem_cons_self) a

theorem simplifyAll_of_simple (h : ∀ m ∈ ms, m.simplify = m) : simplifyAll ms = ms := by
  rw [simplifyAll_eq_map, List.map_congr_left h]
  exact List.map_id' ms

/-- Simplification leaves reduced types as they are if no union has a null beside a member that
allows null. -/
theorem simplify_of_reduced (hl : Metadata.Legible μ) (h : t.EveryUnion Reduced)
    (hnull : t.EveryUnion NullOnce) : t.simplify = t := by
  induction t using inductChildren with
  | step t ih =>
    have hparts : ∀ u ∈ t.children, u.simplify = u :=
      fun u hu => ih u hu (h.child hu) (hnull.child hu)
    cases t with
    | list i a => rw [simplify, hparts i List.mem_cons_self]
    | map k v a =>
      have hv := hparts v (List.mem_cons_of_mem _ List.mem_cons_self)
      rw [simplify, hparts k List.mem_cons_self, hv]
    | tuple is a =>
      have his : simplifyAll is = is := simplifyAll_of_simple hparts
      rw [simplify, his]
    | arrow ps r a =>
      have hr := hparts r (List.mem_append_right _ List.mem_cons_self)
      rw [simplify, simplifyAll_of_simple fun u hu => hparts u (List.mem_append_left _ hu), hr]
    | union ms null a =>
      obtain ⟨hroot, hms⟩ := everyUnion_union.1 h
      have hapart : ∀ m ∈ ms, m.NullApart := fun m hm => nullApart_of_reduced (hms m hm)
      have hput := simplifyUnion_of_reduced hl hroot hapart (everyUnion_union.1 hnull).1
      rw [simplify, simplifyAll_of_simple fun u hu => hparts u (List.mem_append_left _ hu), hput]
      rfl
    | _ => rfl

/-! ## Counting nodes -/

section

omit [Metadata μ]

/-- How many nodes a type has. -/
def nodeCount (t : Ty μ) : Nat := t.nodes.length

/-- How many nodes some types have together. -/
def nodeCounts (ts : List (Ty μ)) : Nat := (ts.map nodeCount).sum

theorem nodeCount_eq (t : Ty μ) : t.nodeCount = 1 + nodeCounts t.children := by
  unfold nodeCount nodeCounts
  rw [nodes_eq_flatMap, List.length_cons, List.length_flatMap, Nat.add_comm]
  rfl

theorem nodeCounts_append (ts us : List (Ty μ)) :
    nodeCounts (ts ++ us) = nodeCounts ts + nodeCounts us := by
  unfold nodeCounts
  rw [List.map_append, List.sum_append]

theorem nodeCounts_singleton (t : Ty μ) : nodeCounts [t] = t.nodeCount := List.sum_singleton

theorem nodeCounts_nullMember (null : Option μ) :
    nodeCounts (nullMember null) = null.toList.length := by
  cases null <;> rfl

theorem nodeCounts_le_of_sublist {ts us : List (Ty μ)} (h : ts.Sublist us) :
    nodeCounts ts ≤ nodeCounts us := (h.map nodeCount).sum_le_sum fun _ _ => Nat.zero_le _

theorem nodeCount_union (ms : List (Ty μ)) (null : Option μ) (a : μ) :
    (union ms null a).nodeCount = 1 + nodeCounts ms + null.toList.length := by
  rw [nodeCount_eq]
  show 1 + nodeCounts (ms ++ nullMember null) = _
  rw [nodeCounts_append, nodeCounts_nullMember, Nat.add_assoc]

theorem nodeCount_withAnn (t : Ty μ) (a : μ) : (t.withAnn a).nodeCount = t.nodeCount := by
  rw [nodeCount_eq, nodeCount_eq t]
  cases t <;> rfl

theorem nodeCount_optionalOf_le (t : Ty μ) (a : μ) :
    (optionalOf t a).nodeCount ≤ t.nodeCount + 2 := by
  unfold optionalOf
  split
  · exact Nat.le_add_right _ _
  · exact Nat.le_add_right _ _
  · rw [nodeCount_union, nodeCount_union]
    simp
  · rw [nodeCount_union, nodeCounts_singleton]
    simp
    omega

theorem nodeCounts_flatMap_le {f : Ty μ → List (Ty μ)} {ts : List (Ty μ)}
    (h : ∀ t ∈ ts, nodeCounts (f t) ≤ t.nodeCount) : nodeCounts (ts.flatMap f) ≤ nodeCounts ts := by
  induction ts with
  | nil => exact Nat.le_refl _
  | cons t ts ih =>
    rw [List.flatMap_cons, nodeCounts_append]
    exact Nat.add_le_add (h t List.mem_cons_self) (ih fun u hu => h u (List.mem_cons_of_mem t hu))

/-- Laying unions open drops their roots. -/
theorem nodeCounts_flatten_le (keep : μ → Bool) (t : Ty μ) :
    nodeCounts (flatten keep t) ≤ t.nodeCount := by
  induction t using induct with
  | union ms null a ih =>
    rw [flatten]
    split
    · exact le_of_eq (nodeCounts_singleton _)
    · rw [flattenAll_eq_flatMap, nodeCounts_append, nodeCounts_nullMember, nodeCount_union]
      have := nodeCounts_flatMap_le ih
      omega
  | _ => exact le_of_eq (nodeCounts_singleton _)

end

/-- What remains of some types has no more nodes than they have. -/
theorem nodeCounts_remaining_le (ts : List (Ty μ)) :
    nodeCounts (remaining ts) + (remainingNull ts).toList.length ≤ nodeCounts ts := by
  have hlaid : nodeCounts (laidOut ts) ≤ nodeCounts ts := by
    unfold laidOut
    rw [flattenAll_eq_flatMap]
    exact nodeCounts_flatMap_le fun t _ => nodeCounts_flatten_le _ t
  have hshown : nodeCounts (uncovered ts) ≤ nodeCounts (laidOut ts) :=
    nodeCounts_le_of_sublist List.filter_sublist
  have hsplit : nodeCounts ((uncovered ts).filter fun t => !t.isNull)
      + nodeCounts ((uncovered ts).filter isNull) = nodeCounts (uncovered ts) := by
    rw [Nat.add_comm, ← nodeCounts_append]
    exact ((List.filter_append_perm isNull (uncovered ts)).map nodeCount).sum_nat
  have hmembers : nodeCounts (remaining ts)
      ≤ nodeCounts ((uncovered ts).filter fun t => !t.isNull) :=
    nodeCounts_le_of_sublist (dedupe_sublist _)
  have hnull : (remainingNull ts).toList.length ≤ nodeCounts ((uncovered ts).filter isNull) := by
    cases hn : remainingNull ts with
    | none => exact Nat.zero_le _
    | some n =>
      have hmem : prim .null n ∈ (uncovered ts).filter isNull :=
        List.mem_filter.2 ⟨laidOut_of_remainingNull hn, rfl⟩
      exact nodeCounts_le_of_sublist (List.singleton_sublist.2 hmem)
  omega

theorem nodeCount_simplifyUnion_le (ts : List (Ty μ)) (a b : μ) :
    (simplifyUnion ts a b).nodeCount ≤ 1 + nodeCounts ts := by
  have hcount := nodeCounts_remaining_le ts
  refine simplifyUnion_cases ?none ?one ?optional ?several
  case none =>
    intro _
    exact Nat.le_add_right 1 _
  case one =>
    intro t ht _
    rw [ht, nodeCounts_singleton] at hcount
    omega
  case optional =>
    intro t n ht hn
    rw [ht, hn, nodeCounts_singleton] at hcount
    have := nodeCount_optionalOf_le t n
    have : (some n).toList.length = 1 := rfl
    omega
  case several =>
    intro _
    rw [nodeCount_union]
    omega

theorem nodeCount_absorb (t : Ty μ) (a : μ) : (t.absorb a).nodeCount = t.nodeCount := by
  unfold absorb withConstraints
  split
  · rfl
  · split
    · rfl
    · exact nodeCount_withAnn t _

/-- A union has no more nodes when it is simplified than its root and its simplified parts. -/
theorem nodeCount_simplify_le_children (t : Ty μ) :
    t.simplify.nodeCount ≤ 1 + nodeCounts (t.children.map simplify) := by
  by_cases hu : t.isUnion = true
  · rw [simplify_of_isUnion hu, nodeCount_absorb]
    exact nodeCount_simplifyUnion_le _ _ _
  · rw [nodeCount_eq, (simplify_of_not_isUnion (Bool.eq_false_iff.2 hu)).2.2]

/-- Simplifying adds no nodes. -/
theorem nodeCount_simplify_le (t : Ty μ) : t.simplify.nodeCount ≤ t.nodeCount := by
  induction t using inductChildren with
  | step t ih =>
    have hparts : nodeCounts (t.children.map simplify) ≤ nodeCounts t.children := by
      unfold nodeCounts
      rw [List.map_map]
      exact List.sum_le_sum ih
    have := nodeCount_simplify_le_children t
    rw [nodeCount_eq t]
    omega

/-- A null that a member allows as well is left out. -/
theorem nodeCount_simplify_lt_of_optional (hl : Metadata.Legible μ)
    (h : (union ms null a).EveryUnion Reduced) (hms : ∀ m ∈ ms, m.EveryUnion NullOnce)
    (hnull : ¬ NullOnce ms null a) :
    (union ms null a).simplify.nodeCount < (union ms null a).nodeCount := by
  obtain ⟨hroot, hreduced⟩ := everyUnion_union.1 h
  unfold NullOnce at hnull
  push Not at hnull
  obtain ⟨hsome, m, hm, hopt⟩ := hnull
  have hopt := Bool.ne_false_iff.1 hopt
  obtain ⟨hmembers, hrest⟩ := remaining_of_choice hl hroot.toChoice
    (fun m hm => nullApart_of_reduced (hreduced m hm)) null
  rw [if_pos (List.any_eq_true.2 ⟨m, hm, hopt⟩)] at hrest
  have hfixed := simplifyAll_of_simple fun m hm => simplify_of_reduced hl (hreduced m hm) (hms m hm)
  have hsimple : (union ms null a).simplify = union ms none a := by
    rcases hroot.enough with htwo | ⟨u, rfl, hu, -⟩
    · rw [simplify, hfixed, simplifyUnion_of_two_le (by rwa [hmembers]), hmembers, hrest]
      rfl
    · rw [List.mem_singleton.1 hm] at hopt
      rw [isUnion_of_isOptional hopt (hroot.notNull u List.mem_cons_self)] at hu
      cases hu
  obtain ⟨n, rfl⟩ := Option.isSome_iff_exists.1 hsome
  rw [hsimple, nodeCount_union, nodeCount_union]
  exact Nat.lt_succ_self _

/-- A reduced type in which some union has a null beside a member that allows null gets smaller. -/
theorem nodeCount_simplify_lt (hl : Metadata.Legible μ) (h : t.EveryUnion Reduced)
    (hnull : ¬ t.EveryUnion NullOnce) : t.simplify.nodeCount < t.nodeCount := by
  induction t using inductChildren with
  | step t ih =>
    by_cases hbelow : ∀ u ∈ t.children, u.EveryUnion NullOnce
    · have hroot : ¬ ∀ ms null a, t = union ms null a → NullOnce ms null a :=
        fun hroot => hnull (everyUnion_iff.2 ⟨hroot, hbelow⟩)
      push Not at hroot
      obtain ⟨ms, null, a, rfl, hroot⟩ := hroot
      exact nodeCount_simplify_lt_of_optional hl h
        (fun m hm => hbelow m (List.mem_append_left _ hm)) hroot
    · push Not at hbelow
      obtain ⟨u, hu, hlost⟩ := hbelow
      have hparts : nodeCounts (t.children.map simplify) < nodeCounts t.children := by
        unfold nodeCounts
        rw [List.map_map]
        exact List.sum_lt_sum _ _ (fun v _ => nodeCount_simplify_le v)
          ⟨u, hu, ih u hu (h.child hu) hlost⟩
      have := nodeCount_simplify_le_children t
      rw [nodeCount_eq t]
      omega

/-! ## Simplifying twice -/

/-- Simplifying once more changes nothing exactly if no union of the simplified type has a null
beside a member that allows null. -/
theorem simplify_simplify_iff (hl : Metadata.Legible μ) (t : Ty μ) :
    t.simplify.simplify = t.simplify ↔ t.simplify.EveryUnion NullOnce := by
  have hreduced := everyUnion_simplify hl t
  constructor
  · intro hsame
    by_contra hnull
    have hless := nodeCount_simplify_lt hl hreduced hnull
    rw [hsame] at hless
    exact Nat.lt_irrefl _ hless
  · exact simplify_of_reduced hl hreduced

/-- Whatever the annotations, simplification is done after one pass for exactly the types whose
simplified form has no union with a null beside a member that allows null. -/
theorem simplify_idempotent_iff (t : Ty Authored) (u : Ty Streamed) (v : Ty Settled) :
    (t.simplify.simplify = t.simplify ↔ t.simplify.EveryUnion NullOnce) ∧
    (u.simplify.simplify = u.simplify ↔ u.simplify.EveryUnion NullOnce) ∧
    (v.simplify.simplify = v.simplify ↔ v.simplify.EveryUnion NullOnce) :=
  ⟨simplify_simplify_iff Authored.legible t, simplify_simplify_iff Streamed.legible u,
    simplify_simplify_iff Settled.legible v⟩

/-- A number, a text or null, under a check. -/
def reply : Ty Authored :=
  .union [.prim .int {}, .prim .string {}] (some {}) ⟨[⟨.check, some "known", "this"⟩], {}⟩

/-- A flag or a reply, under another check, beside the null that it may have. -/
def flagOrReply (null : Option Authored) : Ty Authored :=
  .union [.prim .bool {}, reply] null ⟨[⟨.check, some "given", "this"⟩], {}⟩

/-- A flag or a reply, or null. -/
def answer : Ty Authored := .union [flagOrReply none] (some {}) {}

theorem everyUnion_reply : reply.EveryUnion Reduced ∧ reply.EveryUnion NullOnce := by
  have hchoice : Choice [Ty.prim .int ({} : Authored), .prim .string {}] :=
    choice_of_plain (by simp [isUnion]) (by simp [isNull, nullAnn?]) (by simp)
  refine ⟨everyUnion_union.2 ⟨⟨hchoice, .inl (by simp)⟩, ?_⟩, everyUnion_union.2 ⟨?_, ?_⟩⟩
  · simp [everyUnion_prim]
  · intro _
    simp [isOptional]
  · simp [everyUnion_prim]

theorem choice_flagOrReply : Choice [Ty.prim .bool {}, reply] where
  flat m hm hu := by
    rcases List.mem_cons.1 hm with rfl | hm
    · cases hu
    · rw [List.mem_singleton.1 hm]
      rfl
  notNull := by simp [reply, isNull, nullAnn?]
  distinct := by simp [reply]
  uncovered m hm := by
    rcases List.mem_cons.1 hm with rfl | hm
    · refine .inr fun u hu _ => Bool.eq_false_iff.2 fun hcovers => ?_
      obtain ⟨ms, null, a, rfl, h⟩ := (coveredByUnion_iff Authored.legible).1 hcovers
      simp [reply] at hu
      obtain ⟨rfl, -⟩ := hu
      simp [isNull, nullAnn?] at h
    · exact .inl (by rw [List.mem_singleton.1 hm]; rfl)

theorem simplify_flagOrReply : (flagOrReply none).simplify = flagOrReply none := by
  obtain ⟨hreduced, honce⟩ := everyUnion_reply
  refine simplify_of_reduced Authored.legible ?_ ?_
  · refine everyUnion_union.2 ⟨⟨choice_flagOrReply, .inl (by simp)⟩, ?_⟩
    simp [everyUnion_prim, hreduced]
  · refine everyUnion_union.2 ⟨?_, ?_⟩
    · intro h
      cases h
    · simp [everyUnion_prim, honce]

/-- The null that the flag or the reply gets is one that the reply has already. -/
theorem simplify_twice_differs : answer.simplify = flagOrReply (some {}) ∧
    answer.simplify.simplify = flagOrReply none ∧
    answer.simplify.simplify ≠ answer.simplify := by
  have hchoice : Choice [flagOrReply none] := {
    flat := by
      intro m hm _
      rw [List.mem_singleton.1 hm]
      rfl
    notNull := by simp [flagOrReply, isNull, nullAnn?]
    distinct := List.nodup_singleton _
    uncovered := by simp [flagOrReply, isUnion] }
  have hapart : (flagOrReply none).NullApart ∧ reply.NullApart := by
    simp [flagOrReply, reply, nullApart_union, nullApart_prim, isNull, nullAnn?]
  have hfirst : answer.simplify = flagOrReply (some {}) := by
    obtain ⟨hmembers, hnull⟩ := remaining_of_choice Authored.legible hchoice
      (by simpa using hapart.1) (some {})
    unfold answer
    rw [simplify, simplifyAll, simplifyAll, simplify_flagOrReply, simplifyUnion_eq, hmembers, hnull]
    rfl
  have hsecond : (flagOrReply (some {})).simplify = flagOrReply none := by
    obtain ⟨hmembers, hnull⟩ := remaining_of_choice Authored.legible choice_flagOrReply
      (by simp [nullApart_prim, hapart.2]) (some {})
    have hparts : simplifyAll [.prim .bool {}, reply] = [.prim .bool {}, reply] := by
      show [.prim .bool {}, reply.simplify] = _
      rw [simplify_of_reduced Authored.legible everyUnion_reply.1 everyUnion_reply.2]
    unfold flagOrReply
    rw [simplify, hparts, simplifyUnion_eq, hmembers, hnull]
    rfl
  refine ⟨hfirst, by rw [hfirst, hsecond], ?_⟩
  rw [hfirst, hsecond]
  simp [flagOrReply]

end Ty

end ShapeSchema
