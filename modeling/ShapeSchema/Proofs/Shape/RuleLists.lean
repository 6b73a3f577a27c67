import ShapeSchema.Proofs.Lists
import ShapeSchema.Proofs.Shape.Found
import ShapeSchema.Proofs.Shape.Inhabits
import ShapeSchema.Proofs.Shape.Rules
import ShapeSchema.Proofs.Ty.Induction

/-!
# Constraint lists of built schemas

A declaration is refused unless its own list of constraints is in order (`InOrder`): every
expression says something, every check has a label that does, and no two checks share one. The list
of a field is then put behind the one that the type of its shape carries already
(`Graph.carried`), and nobody looks at the two together. So every list of a schema that was built is
in order, save those of fields that give a check the label of one that their shape carries
(`inOrder_iff`).
-/

namespace ShapeSchema

/-! ## Lists in order -/

/-- The labels of the checks of a list. -/
def checkLabels (cs : List Constraint) : List String :=
  cs.filterMap fun c => if c.level = .check then c.label else none

/-- Every expression says something, and every check has a label that does. -/
structure Worded (cs : List Constraint) : Prop where
  expressions : ∀ c ∈ cs, Text.allBlank c.expression = false
  labels : ∀ c ∈ cs, c.level = .check → ∃ l, c.label = some l ∧ Text.allBlank l = false

/-- Moreover no two checks share a label. -/
structure InOrder (cs : List Constraint) : Prop extends Worded cs where
  distinct : (checkLabels cs).Nodup

theorem worded_nil : Worded [] := ⟨by simp, by simp⟩

theorem inOrder_nil : InOrder [] := ⟨worded_nil, List.nodup_nil⟩

theorem worded_append {cs ds : List Constraint} : Worded (cs ++ ds) ↔ Worded cs ∧ Worded ds := by
  constructor
  · rintro ⟨he, hl⟩
    exact ⟨⟨fun c hc => he c (List.mem_append_left _ hc), fun c hc => hl c (List.mem_append_left _ hc)⟩,
      fun c hc => he c (List.mem_append_right _ hc), fun c hc => hl c (List.mem_append_right _ hc)⟩
  · rintro ⟨hc, hd⟩
    constructor
    · intro c hmem
      exact (List.mem_append.1 hmem).elim (hc.expressions c) (hd.expressions c)
    · intro c hmem
      exact (List.mem_append.1 hmem).elim (hc.labels c) (hd.labels c)

/-- Of two lists in order the second may stand behind the first if they share no label. -/
theorem inOrder_append {cs ds : List Constraint} (hc : InOrder cs) (hd : InOrder ds) :
    InOrder (cs ++ ds) ↔ ∀ l ∈ checkLabels cs, l ∉ checkLabels ds := by
  have split : checkLabels (cs ++ ds) = checkLabels cs ++ checkLabels ds := List.filterMap_append
  constructor
  · intro h l hl hl'
    have hdistinct := h.distinct
    rw [split, List.nodup_append] at hdistinct
    exact hdistinct.2.2 l hl l hl' rfl
  · intro h
    refine ⟨worded_append.2 ⟨hc.toWorded, hd.toWorded⟩, ?_⟩
    rw [split, List.nodup_append]
    refine ⟨hc.distinct, hd.distinct, ?_⟩
    rintro l hl _ hl' rfl
    exact h l hl hl'

theorem worded_cons {c : Constraint} {cs : List Constraint} :
    Worded (c :: cs) ↔ Text.allBlank c.expression = false ∧
      (c.level = .check → ∃ l, c.label = some l ∧ Text.allBlank l = false) ∧ Worded cs := by
  constructor
  · rintro ⟨he, hl⟩
    exact ⟨he c List.mem_cons_self, hl c List.mem_cons_self,
      fun d hd => he d (List.mem_cons_of_mem _ hd), fun d hd => hl d (List.mem_cons_of_mem _ hd)⟩
  · rintro ⟨he, hl, hcs⟩
    exact ⟨List.forall_mem_cons.2 ⟨he, hcs.expressions⟩, List.forall_mem_cons.2 ⟨hl, hcs.labels⟩⟩

theorem inOrder_cons_assert {label : Option String} {expression : String} {cs : List Constraint} :
    InOrder (⟨.assert, label, expression⟩ :: cs) ↔
      Text.allBlank expression = false ∧ InOrder cs := by
  constructor
  · rintro ⟨hw, hd⟩
    obtain ⟨he, -, hcs⟩ := worded_cons.1 hw
    exact ⟨he, hcs, hd⟩
  · rintro ⟨he, hcs, hd⟩
    exact ⟨worded_cons.2 ⟨he, nofun, hcs⟩, hd⟩

theorem inOrder_cons_check {label : Option String} {expression : String} {cs : List Constraint} :
    InOrder (⟨.check, label, expression⟩ :: cs) ↔ Text.allBlank expression = false ∧
      ∃ l, label = some l ∧ Text.allBlank l = false ∧ l ∉ checkLabels cs ∧ InOrder cs := by
  constructor
  · rintro ⟨hw, hd⟩
    obtain ⟨he, hl, hcs⟩ := worded_cons.1 hw
    obtain ⟨l, rfl, hblank⟩ := hl rfl
    obtain ⟨hfresh, hd⟩ := List.nodup_cons.1 (show (l :: checkLabels cs).Nodup from hd)
    exact ⟨he, l, rfl, hblank, hfresh, hcs, hd⟩
  · rintro ⟨he, l, rfl, hblank, hfresh, hcs, hd⟩
    exact ⟨worded_cons.2 ⟨he, fun _ => ⟨l, rfl, hblank⟩, hcs⟩,
      show (l :: checkLabels cs).Nodup from List.nodup_cons.2 ⟨hfresh, hd⟩⟩

/-- A list has no problem if it is in order and the labels of its checks are fresh. -/
theorem constraintProblem?_eq_none_iff {cs : List Constraint} : ∀ {seen : List String},
    constraintProblem? seen cs = none ↔ InOrder cs ∧ ∀ l ∈ checkLabels cs, l ∉ seen := by
  induction cs with
  | nil => exact fun {_} => ⟨fun _ => ⟨inOrder_nil, by simp [checkLabels]⟩, fun _ => rfl⟩
  | cons c cs ih =>
    intro seen
    rw [constraintProblem?]
    obtain ⟨level, label, expression⟩ := c
    split
    · next hblank =>
      refine ⟨nofun, fun h => ?_⟩
      rw [h.1.expressions _ List.mem_cons_self] at hblank
      cases hblank
    next hsaid =>
    rw [Bool.not_eq_true] at hsaid
    cases level with
    | assert =>
      rw [inOrder_cons_assert, and_iff_right hsaid]
      exact ih
    | check =>
      rw [inOrder_cons_check, and_iff_right hsaid]
      cases label with
      | none => simp
      | some l =>
        have hlabels : checkLabels (⟨.check, some l, expression⟩ :: cs) = l :: checkLabels cs := rfl
        simp only [hlabels, Option.some.injEq, exists_eq_left', List.forall_mem_cons]
        cases hblank : Text.allBlank l with
        | true => simp
        | false =>
          by_cases hseen : l ∈ seen
          · simp [hseen]
          · simp only [hseen, List.contains_iff_mem, if_false, Bool.false_eq_true, ih,
              List.mem_cons, not_or, not_false_iff, true_and]
            constructor
            · rintro ⟨horder, hfresh⟩
              exact ⟨⟨fun hl => (hfresh l hl).1 rfl, horder⟩, fun l' hl' => (hfresh l' hl').2⟩
            · rintro ⟨⟨hl, horder⟩, hfresh⟩
              exact ⟨horder, fun l' hl' => ⟨fun he => hl (he ▸ hl'), hfresh l' hl'⟩⟩

/-! ## Lists of all nodes -/

/-- A property of the constraint list of every node. -/
def Ty.EveryList (P : List Constraint → Prop) (t : Ty Authored) : Prop :=
  ∀ u ∈ t.nodes, P u.ann.constraints

/-- The parts of a union of types are among them. -/
theorem Ty.mem_of_mem_children_unionOf {μ : Type} {ts : List (Ty μ)} {a : μ} {u : Ty μ}
    (h : u ∈ (unionOf ts a).children) : u ∈ ts := by
  rcases List.mem_append.1 h with h | h
  · exact (List.mem_filter.1 h).1
  · obtain ⟨b, hb, rfl⟩ := List.mem_map.1 h
    obtain ⟨t, ht, hnull⟩ := List.exists_of_findSome?_eq_some (Option.mem_toList.1 hb)
    unfold nullAnn? at hnull
    split at hnull
    · obtain rfl := Option.some.inj hnull
      exact ht
    · cases hnull

namespace Builder

section
variable {P : List Constraint → Prop} {t : Ty Authored}

theorem everyList_iff : t.EveryList P ↔ P t.ann.constraints ∧ ∀ u ∈ t.children, u.EveryList P :=
  Ty.forall_mem_nodes_iff

theorem everyList_leaf (hroot : P t.ann.constraints) (hleaf : t.children = []) :
    t.EveryList P := everyList_iff.2 ⟨hroot, by simp [hleaf]⟩

theorem everyList_list (hnil : P []) : (Ty.list t {}).EveryList P ↔ t.EveryList P := by
  rw [everyList_iff, and_iff_right (show P (Ty.list t {}).ann.constraints from hnil)]
  show (∀ u ∈ [t], _) ↔ _
  simp

theorem everyList_textMap (hnil : P []) :
    (Ty.map (.prim .string {}) t {}).EveryList P ↔ t.EveryList P := by
  rw [everyList_iff, and_iff_right (show P (Ty.map _ t {}).ann.constraints from hnil)]
  show (∀ u ∈ [.prim .string {}, t], _) ↔ _
  simp [everyList_leaf (t := Ty.prim .string {}) hnil rfl]

theorem everyList_optional (hnil : P []) : t.optional.EveryList P ↔ t.EveryList P := by
  unfold Ty.optional Ty.optionalOf
  have hnull : (Ty.prim .null ({} : Authored)).EveryList P := everyList_leaf hnil rfl
  split
  · exact Iff.rfl
  · exact Iff.rfl
  · next ms b =>
    rw [everyList_iff, everyList_iff]
    show P b.constraints ∧ (∀ u ∈ ms ++ [.prim .null {}], _) ↔
      P b.constraints ∧ ∀ u ∈ ms ++ [], _
    simp only [List.forall_mem_append, List.forall_mem_singleton, hnull, and_true, List.append_nil]
  · rw [everyList_iff, and_iff_right (show P (Ty.union [t] (some {}) {}).ann.constraints from hnil)]
    show (∀ u ∈ [t, .prim .null {}], _) ↔ _
    simp [hnull]

theorem children_withConstraints (cs : List Constraint) :
    (t.withConstraints cs).children = t.children := by
  unfold Ty.withConstraints
  split
  · rfl
  · cases t <;> rfl

theorem everyList_withConstraints (cs : List Constraint) : (t.withConstraints cs).EveryList P ↔
    P (t.ann.constraints ++ cs) ∧ ∀ u ∈ t.children, u.EveryList P := by
  rw [everyList_iff, constraints_withConstraints, children_withConstraints]

/-- The list of a field stands behind the one that the type of its shape carries. -/
theorem everyList_definedField (hnil : P []) {f : Field} (ht : t.EveryList P) :
    (definedField f t).type.EveryList P ↔
      P (t.ann.constraints ++ constraintsOf f.checks f.asserts) := by
  have hbare : (t.withConstraints (constraintsOf f.checks f.asserts)).EveryList P ↔
      P (t.ann.constraints ++ constraintsOf f.checks f.asserts) := by
    rw [everyList_withConstraints]
    exact and_iff_left (everyList_iff.1 ht).2
  unfold definedField
  simp only
  split
  · rw [everyList_optional hnil]
    exact hbare
  · exact hbare

end

end Builder

/-! ## What types of shapes carry -/

/-- The type of an enum is a union, of classes or of texts. -/
def Shape.becomesUnion : Shape → Bool
  | .enum _ _ asUnion vs => isDataEnum vs || asUnion
  | _ => false

/-- The constraints at the root of a shape's type: those that the struct or enum behind pointers
declares. Behind an option too only a union has them at the root, since it takes null in. -/
def Graph.carried (g : Graph) (id : ShapeId) : List Constraint :=
  match g.land false id with
  | .shape _ x => if g.isOption id && !x.becomesUnion then [] else Builder.declaredRules x
  | _ => []

namespace Builder

variable {g : Graph} {tag : String} {s : BuildState}

/-- The type of a shape is that of the shape where options and pointers lead to, made optional if
there is an option among them. -/
theorem Passes.land_optional {T : ShapeId → Ty Authored → Prop} (hT : Passes g T) :
    ∀ {fuel : Nat} {id sid : ShapeId} {x : Shape} {t : Ty Authored},
      g.landWithin false fuel id = .shape sid x → T id t → ∃ u, T sid u ∧
        ((∃ inner, g.behindPointers fuel id = .option inner) ∧ t = u.optional ∨
          (∀ inner, g.behindPointers fuel id ≠ .option inner) ∧ t = u) := by
  intro fuel
  induction fuel with
  | zero =>
    intro id sid x t h
    cases h
  | succ fuel ih =>
    intro id sid x t h ht
    unfold Graph.landWithin at h
    unfold Graph.behindPointers
    split at h
    · next inner hs =>
      rw [hs]
      obtain ⟨w, hw, rfl⟩ := hT.option hs ht
      obtain ⟨u, hu, ⟨-, rfl⟩ | ⟨-, rfl⟩⟩ := ih h hw
      · exact ⟨u, hu, .inl ⟨⟨inner, rfl⟩, optional_of_isOptional (Ty.isOptional_optionalOf u _)⟩⟩
      · exact ⟨w, hu, .inl ⟨⟨inner, rfl⟩, rfl⟩⟩
    · next hs =>
      rw [hs]
      exact ih h (hT.pointer hs ht)
    · next hopt hptr =>
      cases h
      refine ⟨t, ht, .inr ⟨fun inner h => ?_, rfl⟩⟩
      split at h
      · next hs => exact hptr _ _ hs
      · exact hopt inner h

/-- A type has the declared constraints at its root, and as an option if it is a union. -/
structure Roots (x : Shape) (u : Ty Authored) : Prop where
  plain : u.ann.constraints = declaredRules x
  optional : u.optional.ann.constraints = if x.becomesUnion then declaredRules x else []

theorem roots_of_nil {x : Shape} {u : Ty Authored} (hx : declaredRules x = [])
    (hu : u.ann.constraints = []) : Roots x u :=
  ⟨by rw [hx, hu], by rw [hx, ite_self]; exact constraints_optional hu⟩

theorem ann_optional_of_isUnion {u : Ty Authored} (h : u.isUnion = true) :
    u.optional.ann = u.ann := by
  cases u with
  | union ms null a => cases null <;> rfl
  | _ => cases h

theorem isUnion_withConstraints (t : Ty Authored) (cs : List Constraint) :
    (t.withConstraints cs).isUnion = t.isUnion := by
  unfold Ty.withConstraints
  split
  · rfl
  · cases t <;> rfl

theorem Complete.roots {id : ShapeId} {u : Ty Authored} (h : Complete g tag s id u)
    (hrules : u.ann.constraints = declaredRules (g.shape id)) : Roots (g.shape id) u := by
  have union {u : Ty Authored} (hx : (g.shape id).becomesUnion = true) (hu : u.isUnion = true)
      (hrules : u.ann.constraints = declaredRules (g.shape id)) : Roots (g.shape id) u :=
    ⟨hrules, by rw [hx, ann_optional_of_isUnion hu, hrules]; rfl⟩
  cases h with
  | struct hs =>
    refine ⟨hrules, ?_⟩
    rw [hs]
    unfold Ty.withConstraints
    split <;> rfl
  | variants hs hdata =>
    refine union ?_ (isUnion_withConstraints _ _) hrules
    rw [hs, Shape.becomesUnion, hdata]
    rfl
  | texts hs hdata =>
    refine union ?_ (isUnion_withConstraints _ _) hrules
    rw [hs, Shape.becomesUnion, Bool.or_true]
  | enumRef hs hdata =>
    refine ⟨hrules, ?_⟩
    rw [hs, Shape.becomesUnion, hdata]
    unfold Ty.withConstraints
    split <;> rfl

theorem Passes.carried {T : ShapeId → Ty Authored → Prop} (hT : Passes g T) {id : ShapeId}
    {t : Ty Authored} (ht : T id t) (hends : ∃ n, g.Ends false id n)
    (hroots : ∀ {sid u}, g.LandsAt id sid (g.shape sid) → T sid u → Roots (g.shape sid) u) :
    t.ann.constraints = g.carried id := by
  unfold Graph.carried
  cases hl : g.land false id with
  | null => cases Graph.isNull_of_landWithin hl
  | endless =>
    obtain ⟨n, hn⟩ := hends
    exact absurd hl hn.land_ne
  | shape sid x =>
    have hlands := Graph.landsAt_of_land hl
    obtain rfl := hlands.shape
    obtain ⟨u, hu, ⟨⟨inner, hinner⟩, rfl⟩ | ⟨hnot, rfl⟩⟩ := hT.land_optional hl ht
    · have hopt : g.isOption id = true := by
        unfold Graph.isOption Graph.unwrap
        rw [hinner]
      rw [(hroots hlands hu).optional]
      simp only [hopt, Bool.true_and]
      cases (g.shape sid).becomesUnion <;> rfl
    · have hopt : g.isOption id = false := by
        unfold Graph.isOption
        split
        · next hinner => exact absurd hinner (hnot _)
        · rfl
      rw [(hroots hlands hu).plain, hopt]
      rfl

section
variable (hs : Sound g tag (fun _ => False) s) (hkept : RulesKept g s.visited)
include hs hkept

theorem HasType.roots {id sid : ShapeId} {u : Ty Authored} (hlands : g.LandsAt id sid (g.shape sid))
    (h : HasType g s sid u) : Roots (g.shape sid) u := by
  cases h with
  | declared _ hfound =>
    exact (hs.complete hfound).roots (hkept _ (Entries.mem_of_find?_eq_some hfound))
  | @scalar _ x _ hshape ht =>
    exact roots_of_nil (by rw [hshape]; rfl) (by cases x <;> cases ht <;> rfl)
  | list hshape | map hshape => exact roots_of_nil (by rw [hshape]; rfl) rfl
  | option hshape => exact absurd hshape hlands.ne_option
  | pointer hshape => exact absurd hshape hlands.ne_pointer

omit hs hkept in
theorem IntType.roots {repr : IntRepr} {id sid : ShapeId} {u : Ty Authored}
    (hlands : g.LandsAt id sid (g.shape sid)) (h : IntType g repr sid u) :
    Roots (g.shape sid) u := by
  cases h with
  | scalar hshape | list hshape => exact roots_of_nil (by rw [hshape]; rfl) rfl
  | option hshape => exact absurd hshape hlands.ne_option
  | pointer hshape => exact absurd hshape hlands.ne_pointer

theorem KeyType.roots {repr : KeyRepr} {f : Field} {ctx : FieldContext} {id sid : ShapeId}
    {u : Ty Authored} (hlands : g.LandsAt id sid (g.shape sid))
    (h : KeyType g s repr f ctx sid u) : Roots (g.shape sid) u := by
  cases h with
  | list hshape | text hshape | pairs hshape => exact roots_of_nil (by rw [hshape]; rfl) rfl
  | option hshape => exact absurd hshape hlands.ne_option
  | pointer hshape => exact absurd hshape hlands.ne_pointer
  | other _ ht => exact ht.roots hs hkept hlands

/-- The type of a field starts from what its shape carries. -/
theorem BareType.carried {f : Field} {ctx : FieldContext} {t : Ty Authored}
    (h : BareType g s f ctx t) : t.ann.constraints = g.carried f.shape := by
  cases h with
  | ints _ ht =>
    exact (passes_intType _).carried ht (ends_of_intType ht) fun hlands hu =>
      hu.roots hlands
  | keyed _ _ ht =>
    exact (passes_keyType _ _ _ _).carried ht (ends_of_keyType ht) fun hlands hu =>
      hu.roots hs hkept hlands
  | plain _ _ ht =>
    exact (passes_hasType s).carried ht (ends_of_hasType ht) fun hlands hu =>
      hu.roots hs hkept hlands

end

/-! ## Lists of built types -/

section
variable {P : List Constraint → Prop} (hnil : P [])
include hnil

theorem Complete.everyList {id : ShapeId} {t : Ty Authored} (h : Complete g tag s id t)
    (hroot : P t.ann.constraints) : t.EveryList P := by
  refine everyList_iff.2 ⟨hroot, fun u hu => ?_⟩
  cases h with
  | struct | enumRef =>
    rw [children_withConstraints] at hu
    cases hu
  | variants =>
    rw [children_withConstraints] at hu
    obtain ⟨v, -, rfl⟩ := List.mem_map.1 (Ty.mem_of_mem_children_unionOf hu)
    exact everyList_leaf hnil rfl
  | texts =>
    rw [children_withConstraints] at hu
    obtain ⟨v, -, rfl⟩ := List.mem_map.1 (Ty.mem_of_mem_children_unionOf hu)
    exact everyList_leaf hnil rfl

variable (hs : Sound g tag (fun _ => False) s) (hkept : RulesKept g s.visited)
  (hdeclared : ∀ p ∈ s.visited, P (declaredRules (g.shape p.1)))
include hs hkept hdeclared

theorem HasType.everyList {id : ShapeId} {t : Ty Authored} (h : HasType g s id t) :
    t.EveryList P := by
  induction h with
  | declared _ hfound =>
    have hmem := Entries.mem_of_find?_eq_some hfound
    exact (hs.complete hfound).everyList hnil (hkept _ hmem ▸ hdeclared _ hmem)
  | @scalar _ x _ _ ht => cases x <;> cases ht <;> exact everyList_leaf hnil rfl
  | option _ _ ih => exact (everyList_optional hnil).2 ih
  | list _ _ ih => exact (everyList_list hnil).2 ih
  | map _ _ _ ih => exact (everyList_textMap hnil).2 ih
  | pointer _ _ ih => exact ih

omit hs hkept hdeclared in
theorem IntType.everyList {repr : IntRepr} {id : ShapeId} {t : Ty Authored}
    (h : IntType g repr id t) : t.EveryList P := by
  induction h with
  | option _ _ ih => exact (everyList_optional hnil).2 ih
  | list _ _ ih => exact (everyList_list hnil).2 ih
  | pointer _ _ ih => exact ih
  | scalar => exact everyList_leaf hnil rfl

theorem KeyType.everyList {repr : KeyRepr} {f : Field} {ctx : FieldContext} {id : ShapeId}
    {t : Ty Authored} (h : KeyType g s repr f ctx id t) : t.EveryList P := by
  induction h with
  | option _ _ ih => exact (everyList_optional hnil).2 ih
  | list _ _ ih => exact (everyList_list hnil).2 ih
  | pointer _ _ ih => exact ih
  | text _ _ _ ht => exact (everyList_textMap hnil).2 (ht.everyList hnil hs hkept hdeclared)
  | pairs => exact (everyList_list hnil).2 (everyList_leaf hnil rfl)
  | other _ ht => exact ht.everyList hnil hs hkept hdeclared

theorem BareType.everyList {f : Field} {ctx : FieldContext} {t : Ty Authored}
    (h : BareType g s f ctx t) : t.EveryList P := by
  cases h with
  | ints _ ht => exact ht.everyList hnil
  | keyed _ _ ht => exact ht.everyList hnil hs hkept hdeclared
  | plain _ _ ht => exact ht.everyList hnil hs hkept hdeclared

/-- All lists of a field's type are as its own is behind what its shape carries. -/
theorem DefinesField.everyList {owner : String} {v : Option Variant} {f : Field} {d : FieldDef}
    (h : DefinesField g s owner v f d) :
    d.type.EveryList P ↔ P (g.carried f.shape ++ constraintsOf f.checks f.asserts) := by
  obtain ⟨t, ht, rfl⟩ := h.bare
  rw [everyList_definedField hnil (ht.everyList hnil hs hkept hdeclared), ht.carried hs hkept]

end

/-! ## What a builder has checked -/

/-- The own list of every field that is not skipped is in order. -/
def FieldsInOrder (x : Shape) : Prop :=
  ∀ fs ∈ x.fieldGroups, ∀ f ∈ fs, f.skip = false → InOrder (constraintsOf f.checks f.asserts)

/-- Structs and enums that have been met have lists in order, and so have their fields unless they
are being walked. -/
def RulesChecked (g : Graph) (pending : ShapeId → Prop) (vs : List (ShapeId × Ty Authored)) : Prop :=
  ∀ p ∈ vs, InOrder (declaredRules (g.shape p.1)) ∧ (pending p.1 ∨ FieldsInOrder (g.shape p.1))

theorem inOrder_of_validConstraints {shape : Shape} {checks asserts : List Rule}
    {s s' : BuildState} {cs : List Constraint}
    (h : Ran (validConstraints shape checks asserts) s cs s') :
    InOrder (constraintsOf checks asserts) := by
  unfold validConstraints at h
  simp only at h
  split at h
  · exact absurd h not_ran_fail
  · next hnone => exact (constraintProblem?_eq_none_iff.1 hnone).1

section
variable {self : ShapeId → Build (Ty Authored)} {pending : ShapeId → Prop}

theorem inOrder_of_fieldDefs {owner : Shape} {ownerName : String} {v : Option Variant}
    {fields : List Field} {s s' : BuildState} {ds : List FieldDef}
    (h : Ran (fieldDefs g self owner ownerName v fields) s ds s') :
    ∀ f ∈ fields, f.skip = false → InOrder (constraintsOf f.checks f.asserts) := by
  intro f hf hskip
  obtain ⟨t, d, t', hran⟩ := exists_ran_of_mapM h f (List.mem_filter.2 ⟨hf, by simp [hskip]⟩)
  unfold fieldDef at hran
  obtain ⟨_, _, -, h1⟩ := ran_bind.1 hran
  obtain ⟨_, _, -, h2⟩ := ran_bind.1 h1
  obtain ⟨_, _, hcs, -⟩ := ran_bind.1 h2
  exact inOrder_of_validConstraints hcs

theorem inOrder_of_variantClass {owner : Shape} {internal rendered name : String} {v : Variant}
    {s s' : BuildState} {u : Unit}
    (h : Ran (variantClass g self owner internal rendered name v) s u s') :
    ∀ f ∈ v.fields, f.skip = false → InOrder (constraintsOf f.checks f.asserts) := by
  unfold variantClass at h
  simp only at h
  split at h
  · obtain ⟨_, _, hfail, -⟩ := ran_bind.1 h
    exact absurd hfail not_ran_fail
  · obtain ⟨_, _, -, h1⟩ := ran_bind.1 h
    obtain ⟨_, _, hfields, -⟩ := ran_bind.1 h1
    exact inOrder_of_fieldDefs hfields

/-- A struct or enum is met before its fields are walked. -/
theorem RulesChecked.enter {vs : List (ShapeId × Ty Authored)} (h : RulesChecked g pending vs)
    (id : ShapeId) (t : Ty Authored) (hown : InOrder (declaredRules (g.shape id))) :
    RulesChecked g (fun i => pending i ∨ i = id) (vs ++ [(id, t)]) := by
  intro p hp
  rcases List.mem_append.1 hp with hp | hp
  · exact ⟨(h p hp).1, (h p hp).2.imp_left .inl⟩
  · rw [List.mem_singleton.1 hp]
    exact ⟨hown, .inl (.inr rfl)⟩

theorem RulesChecked.close {vs : List (ShapeId × Ty Authored)} {id : ShapeId}
    (h : RulesChecked g (fun i => pending i ∨ i = id) vs) (hfields : FieldsInOrder (g.shape id)) :
    RulesChecked g pending vs := by
  intro p hp
  obtain ⟨hown, (hpending | hid) | hdone⟩ := h p hp
  · exact ⟨hown, .inl hpending⟩
  · exact ⟨hown, .inr (hid ▸ hfields)⟩
  · exact ⟨hown, .inr hdone⟩

theorem checked_visit {id : ShapeId} (t : Ty Authored)
    (hown : InOrder (declaredRules (g.shape id))) (hfields : FieldsInOrder (g.shape id)) :
    Maintains (RulesChecked g pending) (visit id t) := by
  intro s _ s' hchecked hran
  obtain rfl := ran_modify.1 hran
  exact (hchecked.enter id t hown).close hfields

variable (hself : ∀ pending id, Maintains (RulesChecked g pending) (self id))
include hself

theorem checked_structType {id : ShapeId} {d : Declared} {fields : List Field}
    (hshape : g.shape id = .struct d fields) :
    Maintains (RulesChecked g pending) (structType g self id d fields) := by
  unfold structType
  refine (settles_internalName _ _).maintains.bind fun n => ?_
  intro s t s' hchecked hran
  obtain ⟨cs, s1, hcs, h1⟩ := ran_bind.1 hran
  have hown := inOrder_of_validConstraints hcs
  obtain ⟨rfl, rfl⟩ := ran_validConstraints hcs
  obtain ⟨_, s2, hvisit, h2⟩ := ran_bind.1 h1
  obtain ⟨ds, s3, hfields, h3⟩ := ran_bind.1 h2
  obtain rfl := ran_modify.1 hvisit
  have hentered (t : Ty Authored) := hchecked.enter id t (by rw [hshape]; exact hown)
  have hwalked := maintains_fieldDefs (hself _) _ _ _ _ _ _ _ (hentered _) hfields
  have hclosed : RulesChecked g pending s3.visited := by
    refine hwalked.close fun fs hfs => ?_
    rw [hshape] at hfs
    rw [List.mem_singleton.1 hfs]
    exact inOrder_of_fieldDefs hfields
  exact ((settles_registerClass _).maintains.bind fun _ => maintains_pure _) _ _ _ hclosed h3

theorem checked_enumType {id : ShapeId} {d : Declared} {own : Option String} {u : Bool}
    {vs : List Variant} (hshape : g.shape id = .enum d own u vs) :
    Maintains (RulesChecked g pending) (enumType g tag self id d own u vs) := by
  unfold enumType
  dsimp only
  refine (settles_internalName _ _).maintains.bind fun n => ?_
  intro s t s' hchecked hran
  obtain ⟨cs, s1, hcs, h1⟩ := ran_bind.1 hran
  have hown := inOrder_of_validConstraints hcs
  obtain ⟨rfl, -⟩ := ran_validConstraints hcs
  have hentered (t : Ty Authored) := hchecked.enter id t (by rw [hshape]; exact hown)
  split at h1
  · obtain ⟨_, s2, hvisit, h2⟩ := ran_bind.1 h1
    obtain ⟨_, s3, hvariants, h3⟩ := ran_bind.1 h2
    obtain rfl := ran_modify.1 hvisit
    obtain ⟨rfl, rfl⟩ := ran_pure.1 h3
    have hwalked := maintains_forM (fun v _ => maintains_variantClass (hself _) _ _ _ _ v) _ _ _
      (hentered _) hvariants
    refine hwalked.close fun fs hfs => ?_
    rw [hshape] at hfs
    obtain ⟨v, hv, rfl⟩ := List.mem_map.1 hfs
    obtain ⟨_, _, _, hran⟩ := exists_ran_of_forM hvariants v hv
    exact inOrder_of_variantClass hran
  · next hdata =>
    -- no variant has a field to check
    have hnone : FieldsInOrder (g.shape id) := by
      intro fs hfs f hf
      rw [hshape] at hfs
      obtain ⟨v, hv, rfl⟩ := List.mem_map.1 hfs
      have := List.any_eq_false.1 (Bool.eq_false_iff.2 hdata) v hv
      simp_all
    have met (t : Ty Authored) : Maintains (RulesChecked g pending) (visit id t) :=
      checked_visit t (by rw [hshape]; exact hown) hnone
    split at h1
    · exact (met _).bind (fun _ => maintains_pure _) s t s' hchecked h1
    · refine (met _).bind (fun _ => ?_) s t s' hchecked h1
      exact (settles_registerEnum _).maintains.bind fun _ => maintains_pure _

end

theorem checked_typeWithin : ∀ (fuel : Nat) (pending : ShapeId → Prop) (id : ShapeId),
    Maintains (RulesChecked g pending) (typeWithin g tag fuel id) := by
  intro fuel
  induction fuel with
  | zero => exact fun _ id => maintains_throw _
  | succ fuel ih =>
    exact fun pending id => maintains_step (ih pending) (fun _ _ hs => checked_structType ih hs)
      fun _ _ _ _ hs => checked_enumType ih hs

/-- Once nothing is being walked, everything that was declared has been found in order. -/
theorem rulesChecked_of_buildSchema {root : ShapeId} {b : Bundle} {s : BuildState}
    (h : buildSchema g root tag = (.ok b, s)) : RulesChecked g (fun _ => False) s.visited := by
  obtain ⟨t, s1, hvisited, hran⟩ := ran_of_buildSchema h
  exact checked_typeWithin _ _ root _ t s (fun _ hp => by rw [hvisited] at hp; cases hp) hran

end Builder

/-! ## Fields that repeat a label -/

/-- The fields that the class of a source shows, those of its struct or variant that are not
skipped. -/
def ClassSource.shownFields (g : Graph) : ClassSource → List Field
  | .struct id _ => ((g.shape id).fieldGroups.flatten).filter fun f => !f.skip
  | .variant _ _ v => v.fields.filter fun f => !f.skip
  | .entry _ _ _ _ => []

/-- A field gives a check the label of one that its shape carries. -/
def Graph.RepeatsLabel (g : Graph) (f : Field) : Prop :=
  ∃ l ∈ checkLabels (g.carried f.shape), l ∈ checkLabels (constraintsOf f.checks f.asserts)

instance (g : Graph) : DecidablePred g.RepeatsLabel := fun f => inferInstanceAs
  (Decidable (∃ l ∈ checkLabels (g.carried f.shape),
    l ∈ checkLabels (constraintsOf f.checks f.asserts)))

namespace Builder

section
variable (hs : Sound g tag (fun _ => False) s) (hkept : RulesKept g s.visited)
  (hchecked : RulesChecked g (fun _ => False) s.visited)
include hs hkept hchecked

theorem DefinesField.rules_iff {owner : String} {v : Option Variant} {f : Field} {d : FieldDef}
    (h : DefinesField g s owner v f d) (hown : InOrder (constraintsOf f.checks f.asserts)) :
    d.type.EveryList Worded ∧ (d.type.EveryList InOrder ↔ ¬ g.RepeatsLabel f) := by
  have hdeclared : ∀ p ∈ s.visited, InOrder (declaredRules (g.shape p.1)) :=
    fun p hp => (hchecked p hp).1
  have hcarried : InOrder (g.carried f.shape) := by
    obtain ⟨t, ht, -⟩ := h.bare
    rw [← ht.carried hs hkept]
    exact (everyList_iff.1 (ht.everyList inOrder_nil hs hkept hdeclared)).1
  constructor
  · rw [h.everyList worded_nil hs hkept fun p hp => (hdeclared p hp).toWorded]
    exact worded_append.2 ⟨hcarried.toWorded, hown.toWorded⟩
  · rw [h.everyList inOrder_nil hs hkept hdeclared, inOrder_append hcarried hown]
    unfold Graph.RepeatsLabel
    push Not
    rfl

theorem DefinesFields.rules_iff {owner : String} {v : Option Variant} {fields : List Field}
    {defs : List FieldDef} (h : DefinesFields g s owner v fields defs)
    (hown : ∀ f ∈ fields, f.skip = false → InOrder (constraintsOf f.checks f.asserts)) :
    (∀ d ∈ defs, d.type.EveryList Worded) ∧ ((∀ d ∈ defs, d.type.EveryList InOrder) ↔
      ∀ f ∈ fields.filter fun f => !f.skip, ¬ g.RepeatsLabel f) := by
  have each : ∀ f ∈ fields.filter fun f => !f.skip, ∀ d, DefinesField g s owner v f d →
      d.type.EveryList Worded ∧ (d.type.EveryList InOrder ↔ ¬ g.RepeatsLabel f) := by
    intro f hf d hd
    obtain ⟨hmem, hskip⟩ := List.mem_filter.1 hf
    exact hd.rules_iff hs hkept hchecked (hown f hmem (by simpa using hskip))
  refine ⟨fun d hd => ?_, fun hall f hf => ?_, fun hall d hd => ?_⟩
  · obtain ⟨f, hf, hdef⟩ := exists_of_forall₂ h hd
    exact (each f hf d hdef).1
  · obtain ⟨d, hd, hdef⟩ := exists_of_forall₂ h.flip hf
    exact (each f hf d hdef).2.1 (hall d hd)
  · obtain ⟨f, hf, hdef⟩ := exists_of_forall₂ h hd
    exact (each f hf d hdef).2.2 (hall f hf)

omit hkept in
/-- Whatever has a name was met and found in order. -/
theorem checked_of_named {p : ShapeId × String} (hp : p ∈ s.names) :
    InOrder (declaredRules (g.shape p.1)) ∧ FieldsInOrder (g.shape p.1) := by
  obtain ⟨q, hq, hid⟩ := List.mem_map.1 (hs.named p hp)
  rw [← hid]
  exact ⟨(hchecked q hq).1, (hchecked q hq).2.resolve_left not_false⟩

/-- The lists of a class that stands for a source. -/
theorem Defines.rules_iff {src : ClassSource} {c : ClassDef} (hsrc : src ∈ classSources g s.names)
    (hdef : Defines g tag s src c) :
    InOrder c.constraints ∧ (∀ d ∈ c.fields, d.type.EveryList Worded) ∧
      ((∀ d ∈ c.fields, d.type.EveryList InOrder) ↔
        ∀ f ∈ src.shownFields g, ¬ g.RepeatsLabel f) := by
  obtain ⟨p, hp, hsrc⟩ := List.mem_flatMap.1 hsrc
  obtain ⟨hown, hfields⟩ := checked_of_named hs hchecked hp
  have hgroup := group_of_source hsrc
  have hdeclared : ∀ p ∈ s.visited, InOrder (declaredRules (g.shape p.1)) :=
    fun p hp => (hchecked p hp).1
  rw [hdef.constraints]
  obtain ⟨-, hclass⟩ := hdef
  generalize c.fields = ds at hclass
  cases hclass with
  | @struct _ _ _ fields _ hshape hdefs =>
    obtain rfl : _ = p.1 := hgroup
    refine ⟨hown, ?_⟩
    have hgroups : (g.shape p.1).fieldGroups = [fields] := by rw [hshape]; rfl
    rw [ClassSource.shownFields, hgroups, List.flatten_singleton]
    exact hdefs.rules_iff hs hkept hchecked (hfields _ (by rw [hgroups]; exact List.mem_cons_self))
  | variant hshape _ hdefs =>
    obtain ⟨rfl, hgroup⟩ := hgroup
    obtain ⟨hworded, hiff⟩ := hdefs.rules_iff hs hkept hchecked (hfields _ hgroup)
    refine ⟨inOrder_nil, List.forall_mem_cons.2 ⟨everyList_leaf worded_nil rfl, hworded⟩, ?_⟩
    rw [List.forall_mem_cons, and_iff_right (everyList_leaf inOrder_nil rfl)]
    exact hiff
  | @entry _ _ _ _ _ _ _ k x _ hk hx =>
    have parts {P : List Constraint → Prop} (hnil : P [])
        (hP : ∀ p ∈ s.visited, P (declaredRules (g.shape p.1))) :
        ∀ d ∈ [(⟨⟨"key", none⟩, k, none, false⟩ : FieldDef), ⟨⟨"value", none⟩, x, none, false⟩],
          d.type.EveryList P := by
      intro d hd
      rcases List.mem_cons.1 hd with rfl | hd
      · exact hk.everyList hnil hs hkept hP
      · rw [List.mem_singleton.1 hd]
        exact hx.everyList hnil hs hkept hP
    refine ⟨inOrder_nil, parts worded_nil fun p hp => (hdeclared p hp).toWorded,
      fun _ _ => nofun, fun _ => parts inOrder_nil hdeclared⟩

end

/-- Every constraint list of a schema that was built without codecs has nothing blank in it, and
those of the target, the classes and the enums are in order. The lists of all field types are in
order as well exactly if no field that a registered class shows gives a check the label of one that
its shape carries. -/
theorem inOrder_iff {root : ShapeId} {b : Bundle} (hfree : g.Below Shape.CodecFree root)
    (hb : buildSchema g root tag = (.ok b, s)) :
    (b.schema.target.EveryList InOrder ∧ (∀ c ∈ b.schema.classes, InOrder c.constraints) ∧
      (∀ e ∈ b.schema.enums, InOrder e.constraints) ∧
      ∀ c ∈ b.schema.classes, ∀ d ∈ c.fields, d.type.EveryList Worded) ∧
    ((∀ c ∈ b.schema.classes, ∀ d ∈ c.fields, d.type.EveryList InOrder) ↔
      ∀ src ∈ classSources g b.names, (∃ c ∈ b.schema.classes, Defines g tag s src c) →
        ∀ f ∈ src.shownFields g, ¬ g.RepeatsLabel f) := by
  have hkept := rulesKept_of_buildSchema hb
  have hchecked := rulesChecked_of_buildSchema hb
  obtain ⟨target, rfl, built⟩ := built_of_buildSchema hfree hb
  have hs := built.sound
  have hclass : ∀ c ∈ (Bundle.of s target tag).schema.classes,
      ∃ src ∈ classSources g s.names, Defines g tag s src c :=
    fun c hc => hs.classes c (List.mem_mergeSort.1 hc)
  refine ⟨⟨?_, fun c hc => ?_, fun e he => ?_, fun c hc => ?_⟩, fun hall src hsrc => ?_,
    fun hall c hc => ?_⟩
  · exact built.target.everyList inOrder_nil hs hkept fun p hp => (hchecked p hp).1
  · obtain ⟨src, hsrc, hdef⟩ := hclass c hc
    exact (hdef.rules_iff hs hkept hchecked hsrc).1
  · obtain ⟨p, hp, d, own, u, vs, hshape, rfl⟩ := hs.enums e (List.mem_mergeSort.1 he)
    have hnamed := (checked_of_named hs hchecked hp).1
    rw [hshape] at hnamed
    exact hnamed
  · obtain ⟨src, hsrc, hdef⟩ := hclass c hc
    exact (hdef.rules_iff hs hkept hchecked hsrc).2.1
  · rintro ⟨c, hc, hdef⟩
    exact (hdef.rules_iff hs hkept hchecked hsrc).2.2.1 (hall c hc)
  · obtain ⟨src, hsrc, hdef⟩ := hclass c hc
    exact (hdef.rules_iff hs hkept hchecked hsrc).2.2.2 (hall src hsrc ⟨c, hc, hdef⟩)

/-- Parcels whose address may be missing. The check of the field that holds it has the label of the
address's own, and the option stands between the two. -/
def parcelGraph : Graph where
  shapes := #[
    .struct { ident := "Parcel", checks := [⟨some "whole", "this.weight > 0"⟩] } [
      { name := "weight", shape := 1, checks := [⟨some "light", "this < 30"⟩],
        asserts := [⟨none, "this != 0"⟩] },
      { name := "to", shape := 2, checks := [⟨some "known", "this != null"⟩] },
      { name := "state", shape := 5, checks := [⟨some "fresh", "this != \"lost\""⟩] }],
    .scalar .i32,
    .option 3,
    .struct { ident := "Address", checks := [⟨some "known", "this.street != \"\""⟩] } [
      { name := "street", shape := 4 }],
    .scalar .string,
    .enum { ident := "State", checks := [⟨some "open", "this != \"done\""⟩] } none true [
      { name := "sent" }, { name := "lost" }, { name := "done" }]]

theorem inOrder_iff_parcel : parcelGraph.Below Shape.CodecFree 0 ∧ ∃ b s,
    buildSchema parcelGraph 0 "type" = (.ok b, s) ∧
    b.names = [(0, "Parcel"), (3, "Address"), (5, "State")] ∧
    b.schema.target.EveryList InOrder ∧
    ∀ c ∈ b.schema.classes, InOrder c.constraints ∧ ∀ d ∈ c.fields, d.type.EveryList InOrder := by
  have hfree : parcelGraph.Below Shape.CodecFree 0 := fun i _ =>
    Graph.forall_shape (by decide) (by decide) i
  obtain ⟨b, s, hb, hnames⟩ : ∃ b s, buildSchema parcelGraph 0 "type" = (.ok b, s) ∧
      b.names = [(0, "Parcel"), (3, "Address"), (5, "State")] := ⟨_, _, rfl, rfl⟩
  have hfresh : ∀ src ∈ classSources parcelGraph b.names, ∀ f ∈ src.shownFields parcelGraph,
      ¬ parcelGraph.RepeatsLabel f := by
    rw [hnames]
    decide
  obtain ⟨⟨htarget, hclasses, -, -⟩, hiff⟩ := inOrder_iff hfree hb
  have hfields := hiff.2 fun src hsrc _ => hfresh src hsrc
  exact ⟨hfree, b, s, hb, hnames, htarget, fun c hc => ⟨hclasses c hc, hfields c hc⟩⟩

/-- A field of a checked struct, with a check of its own that has the same label. -/
def stampGraph : Graph where
  shapes := #[
    .struct { ident := "Letter" } [
      { name := "stamp", shape := 1, checks := [⟨some "ok", "this"⟩] }],
    .struct { ident := "Stamp", checks := [⟨some "ok", "this.worth > 0"⟩] } [
      { name := "worth", shape := 2 }],
    .scalar .i32]

/-- Both declarations are accepted, and the type of the field has two checks of one label. -/
theorem inOrder_fails : stampGraph.Below Shape.CodecFree 0 ∧ ∃ b s,
    buildSchema stampGraph 0 "type" = (.ok b, s) ∧ ∃ c ∈ b.schema.classes, ∃ d ∈ c.fields,
      d.type.ann.constraints =
        [⟨.check, some "ok", "this.worth > 0"⟩, ⟨.check, some "ok", "this"⟩] ∧
      ¬ d.type.EveryList InOrder := by
  refine ⟨fun i _ => Graph.forall_shape (by decide) (by decide) i, _, _, rfl, _,
    List.mem_mergeSort.2 (List.mem_of_getElem? (i := 1) rfl), _,
    List.mem_of_getElem? (i := 0) rfl, rfl, fun h => ?_⟩
  exact absurd (everyList_iff.1 h).1.distinct (by decide)

end Builder

end ShapeSchema
