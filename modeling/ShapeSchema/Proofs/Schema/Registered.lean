import ShapeSchema.Proofs.Text.Order
import ShapeSchema.Schema.Registry

/-!
# What is registered

A registry is built by registering definitions one after the other. Since the first definition under
a name counts, its enums have distinct names, and its classes distinct names or modes, whatever is
registered (`nodup_enums`, `nodup_classes`); definitions that are distinct to begin with are all
kept, in their order (`classes_ofRegistrations`, `enums_ofRegistrations`). A schema lists its classes
by name, the complete one of a name before that for partial values (`pairwise_classes`).
-/

namespace ShapeSchema

/-! ## Orders that go by a name first -/

namespace Text

variable {α : Type}

/-- An order that goes by a name, and by another order among equal names. -/
def nameThen (name : α → String) (le : α → α → Bool) (a b : α) : Bool :=
  if name a = name b then le a b else Text.le (name a) (name b)

variable {name : α → String} {le : α → α → Bool}

theorem nameThen_of_eq {a b : α} (h : name a = name b) : nameThen name le a b = le a b := if_pos h

theorem nameThen_of_ne {a b : α} (h : name a ≠ name b) :
    nameThen name le a b = Text.le (name a) (name b) := if_neg h

theorem nameThen_trans (htrans : ∀ a b c, le a b = true → le b c = true → le a c = true)
    (a b c : α) (hab : nameThen name le a b = true) (hbc : nameThen name le b c = true) :
    nameThen name le a c = true := by
  by_cases h₁ : name a = name b
  · rw [nameThen_of_eq h₁] at hab
    by_cases h₂ : name b = name c
    · rw [nameThen_of_eq h₂] at hbc
      rw [nameThen_of_eq (h₁.trans h₂)]
      exact htrans a b c hab hbc
    · rw [nameThen_of_ne h₂] at hbc
      rwa [nameThen_of_ne (h₁ ▸ h₂), h₁]
  · rw [nameThen_of_ne h₁] at hab
    by_cases h₂ : name b = name c
    · rwa [nameThen_of_ne (h₂ ▸ h₁), ← h₂]
    · rw [nameThen_of_ne h₂] at hbc
      have hne : name a ≠ name c := fun h => h₁ (eq_of_le_of_le hab (h ▸ hbc))
      rw [nameThen_of_ne hne]
      exact le_trans hab hbc

theorem nameThen_total (htotal : ∀ a b, (le a b || le b a) = true) (a b : α) :
    (nameThen name le a b || nameThen name le b a) = true := by
  by_cases h : name a = name b
  · rw [nameThen_of_eq h, nameThen_of_eq h.symm]
    exact htotal a b
  · rw [nameThen_of_ne h, nameThen_of_ne (Ne.symm h)]
    exact le_total _ _

/-- What comes before each other has one name and comes before each other by the second order. -/
theorem nameThen_antisymm {a b : α} (hab : nameThen name le a b = true)
    (hba : nameThen name le b a = true) :
    name a = name b ∧ le a b = true ∧ le b a = true := by
  by_cases h : name a = name b
  · rw [nameThen_of_eq h] at hab
    rw [nameThen_of_eq h.symm] at hba
    exact ⟨h, hab, hba⟩
  · rw [nameThen_of_ne h] at hab
    rw [nameThen_of_ne (Ne.symm h)] at hba
    exact absurd (eq_of_le_of_le hab hba) h

end Text

/-! ## The first under a key -/

section

variable {α κ : Type} [DecidableEq κ] (key : α → κ)

/-- Adds an item at the end unless its key is taken. -/
def addNew (xs : List α) (x : α) : List α := if key x ∈ xs.map key then xs else xs ++ [x]

variable {key}

theorem nodup_addNew {xs : List α} (h : (xs.map key).Nodup) (x : α) :
    ((addNew key xs x).map key).Nodup := by
  unfold addNew
  split
  · exact h
  · next hx =>
    rw [List.map_append, List.map_singleton]
    refine List.nodup_append.2 ⟨h, List.pairwise_singleton _ _, fun a ha b hb hab => hx ?_⟩
    rwa [← List.mem_singleton.1 hb, ← hab]

theorem nodup_foldl_addNew {xs : List α} (h : (xs.map key).Nodup) (ys : List α) :
    ((ys.foldl (addNew key) xs).map key).Nodup := by
  induction ys generalizing xs with
  | nil => exact h
  | cons y ys ih => exact ih (nodup_addNew h y)

/-- Items of distinct keys are all added. -/
theorem foldl_addNew {xs ys : List α} (h : ((xs ++ ys).map key).Nodup) :
    ys.foldl (addNew key) xs = xs ++ ys := by
  induction ys generalizing xs with
  | nil => exact (List.append_nil xs).symm
  | cons y ys ih =>
    have hy : key y ∉ xs.map key := fun hmem => by
      rw [List.map_append, List.map_cons] at h
      exact (List.nodup_append.1 h).2.2 _ hmem _ List.mem_cons_self rfl
    have hadd : addNew key xs y = xs ++ [y] := if_neg hy
    rw [List.foldl_cons, hadd, ih (by rwa [List.append_assoc]), List.append_assoc,
      List.singleton_append]

end

/-! ## Registering -/

/-- What may be registered, and the claim of a name. -/
inductive Registration where
  | ofEnum (e : EnumDef)
  | ofClass (c : ClassDef)
  | ofAlias (name : String) (type : Ty Authored)
  | mark (name : String)

namespace Registration

/-- The class that is registered. -/
def class? : Registration → Option ClassDef
  | ofClass c => some c
  | _ => none

/-- The enum that is registered. -/
def enum? : Registration → Option EnumDef
  | ofEnum e => some e
  | _ => none

end Registration

/-- What tells a class from others: its name and mode. -/
def ClassDef.key (c : ClassDef) : String × Mode := (c.name.real, c.mode)

/-- What tells an enum from others. -/
def EnumDef.key (e : EnumDef) : String := e.name.real

namespace Registry

def register (r : Registry) : Registration → Registry
  | .ofEnum e => r.addEnum e
  | .ofClass c => r.addClass c
  | .ofAlias name type => r.addAlias name type
  | .mark name => (r.mark name).2

/-- The registry after some registrations. -/
def ofRegistrations (xs : List Registration) : Registry := xs.foldl register {}

variable (r : Registry)

theorem classes_addClass (c : ClassDef) :
    (r.addClass c).classes = addNew ClassDef.key r.classes c := by
  have hkey : r.hasClass c.name.real c.mode = true ↔ c.key ∈ r.classes.map ClassDef.key := by
    unfold hasClass
    rw [List.any_eq_true, List.mem_map]
    refine exists_congr fun d => and_congr_right fun _ => ?_
    rw [Bool.and_eq_true, beq_iff_eq, beq_iff_eq]
    exact Prod.mk.injEq .. ▸ Iff.rfl
  unfold addClass addNew
  simp only [hkey]
  split <;> rfl

theorem enums_addEnum (e : EnumDef) : (r.addEnum e).enums = addNew EnumDef.key r.enums e := by
  have hkey : r.hasEnum e.name.real = true ↔ e.key ∈ r.enums.map EnumDef.key := by
    unfold hasEnum
    rw [List.any_eq_true, List.mem_map]
    exact exists_congr fun d => and_congr_right fun _ => beq_iff_eq
  unfold addEnum addNew
  simp only [hkey]
  split <;> rfl

/-- A registration adds its class, if it is one and the name is free in its mode. -/
theorem classes_register (x : Registration) :
    (r.register x).classes = x.class?.toList.foldl (addNew ClassDef.key) r.classes := by
  cases x with
  | ofClass c => exact r.classes_addClass c
  | ofEnum e =>
    show (r.addEnum e).classes = r.classes
    unfold addEnum
    split <;> rfl
  | ofAlias name type => rfl
  | mark name =>
    show (r.mark name).2.classes = r.classes
    unfold mark
    split <;> rfl

theorem enums_register (x : Registration) :
    (r.register x).enums = x.enum?.toList.foldl (addNew EnumDef.key) r.enums := by
  cases x with
  | ofEnum e => exact r.enums_addEnum e
  | ofClass c =>
    show (r.addClass c).enums = r.enums
    unfold addClass
    split <;> rfl
  | ofAlias name type => rfl
  | mark name =>
    show (r.mark name).2.enums = r.enums
    unfold mark
    split <;> rfl

theorem classes_run (xs : List Registration) : (xs.foldl register r).classes =
    (xs.filterMap Registration.class?).foldl (addNew ClassDef.key) r.classes := by
  induction xs generalizing r with
  | nil => rfl
  | cons x xs ih =>
    rw [List.foldl_cons, ih, classes_register]
    cases h : x.class? with
    | none => rw [List.filterMap_cons_none h]; rfl
    | some c => rw [List.filterMap_cons_some h]; rfl

theorem enums_run (xs : List Registration) : (xs.foldl register r).enums =
    (xs.filterMap Registration.enum?).foldl (addNew EnumDef.key) r.enums := by
  induction xs generalizing r with
  | nil => rfl
  | cons x xs ih =>
    rw [List.foldl_cons, ih, enums_register]
    cases h : x.enum? with
    | none => rw [List.filterMap_cons_none h]; rfl
    | some e => rw [List.filterMap_cons_some h]; rfl

/-- No two classes of a registry compete for a name in one mode. -/
theorem nodup_classes (xs : List Registration) :
    ((ofRegistrations xs).classes.map ClassDef.key).Nodup := by
  unfold ofRegistrations
  rw [classes_run]
  refine nodup_foldl_addNew ?_ _
  exact List.nodup_nil

theorem nodup_enums (xs : List Registration) :
    ((ofRegistrations xs).enums.map EnumDef.key).Nodup := by
  unfold ofRegistrations
  rw [enums_run]
  refine nodup_foldl_addNew ?_ _
  exact List.nodup_nil

/-- Classes that differ in name or mode are all kept, in order. -/
theorem classes_ofRegistrations {xs : List Registration}
    (h : ((xs.filterMap Registration.class?).map ClassDef.key).Nodup) :
    (ofRegistrations xs).classes = xs.filterMap Registration.class? := by
  unfold ofRegistrations
  rw [classes_run]
  exact foldl_addNew h

/-- Enums that differ in name are all kept, in order. -/
theorem enums_ofRegistrations {xs : List Registration}
    (h : ((xs.filterMap Registration.enum?).map EnumDef.key).Nodup) :
    (ofRegistrations xs).enums = xs.filterMap Registration.enum? := by
  unfold ofRegistrations
  rw [enums_run]
  exact foldl_addNew h

end Registry

/-! ## The order of definitions -/

namespace Registry

/-- Among classes of one name the complete one comes first. -/
theorem classLe_eq : classLe = Text.nameThen (fun c => c.name.real)
    fun a b => a.mode == .complete || b.mode == .partialValue := rfl

theorem classLe_of_name {c d : ClassDef} (h : c.name.real = d.name.real) :
    classLe c d = (c.mode == .complete || d.mode == .partialValue) := if_pos h

theorem pairwise_classes (cs : List ClassDef) :
    (cs.mergeSort classLe).Pairwise fun c d => classLe c d = true := by
  refine List.pairwise_mergeSort ?_ ?_ cs
  · rw [classLe_eq]
    refine Text.nameThen_trans fun a b c hab hbc => ?_
    revert hab hbc
    cases a.mode <;> cases b.mode <;> cases c.mode <;> decide
  · rw [classLe_eq]
    refine Text.nameThen_total fun a b => ?_
    cases a.mode <;> cases b.mode <;> decide

end Registry

/-- What is found last in an ordered list comes after everything else that might be found. -/
theorem last_of_find? {α : Type} {le : α → α → Bool} {xs : List α} {p : α → Bool} {x : α}
    (hsorted : xs.Pairwise fun a b => le a b = true) (h : xs.reverse.find? p = some x) :
    x ∈ xs ∧ p x = true ∧ ∀ y ∈ xs, p y = true → y = x ∨ le y x = true := by
  obtain ⟨hp, before, after, hsplit, hbefore⟩ := List.find?_eq_some_iff_append.1 h
  have hxs : xs = after.reverse ++ x :: before.reverse := by
    rw [← List.reverse_reverse xs, hsplit]
    simp
  rw [hxs, List.pairwise_append] at hsorted
  refine ⟨by simp [hxs], hp, fun y hy hpy => ?_⟩
  rw [hxs, List.mem_append, List.mem_cons] at hy
  rcases hy with hy | rfl | hy
  · exact .inr (hsorted.2.2 y hy x List.mem_cons_self)
  · exact .inl rfl
  · have hno := hbefore y (List.mem_reverse.1 hy)
    rw [hpy] at hno
    exact absurd hno (by decide)

end ShapeSchema
