import ShapeSchema.Proofs.Convert.Alike
import ShapeSchema.Proofs.Convert.Trails
import ShapeSchema.Proofs.Ty.Induction

/-!
# References that repeat constraints

A reference may repeat the constraints of the definition that it refers to. At a class this makes no
difference: the constraints of class and reference are evaluated once, after the fields
(`Coercer.coerce_classRef`). The constraints of an enum are evaluated only where a reference repeats
them. So types and schemas that repeat constraints give the same values and fail at the same places
as those that do not, and record the same exactly if every enum whose constraints are repeated has
none but asserts that all its values pass (`Coercer.run_restated`).
-/

namespace ShapeSchema

/-! ## Types and schemas that repeat constraints -/

namespace Schema

/-- The second type is the first, but some references without constraints repeat those of their
definition: references to classes, and to enums that `names` holds of. -/
inductive Restates (s : Schema) (names : String → Prop) : Ty Authored → Ty Authored → Prop where
  | top (a : Authored) : Restates s names (.top a) (.top a)
  | prim (p : Prim) (a : Authored) : Restates s names (.prim p a) (.prim p a)
  | literal (l : Literal) (a : Authored) : Restates s names (.literal l a) (.literal l a)
  | enumRef (name : String) (dyn : Bool) (a : Authored) :
      Restates s names (.enumRef name dyn a) (.enumRef name dyn a)
  | classRef (name : String) (mode : Mode) (dyn : Bool) (a : Authored) :
      Restates s names (.classRef name mode dyn a) (.classRef name mode dyn a)
  | aliasRef (name : String) (mode : Mode) (a : Authored) :
      Restates s names (.aliasRef name mode a) (.aliasRef name mode a)
  | ofEnum {name : String} {e : EnumDef} (dyn : Bool) (flags : StreamFlags) :
      names name → s.findEnum? name = some e →
      Restates s names (.enumRef name dyn ⟨[], flags⟩) (.enumRef name dyn ⟨e.constraints, flags⟩)
  | ofClass {name : String} {mode : Mode} {d : ClassDef} (dyn : Bool) (flags : StreamFlags) :
      s.findClass? name mode = some d →
      Restates s names (.classRef name mode dyn ⟨[], flags⟩)
        (.classRef name mode dyn ⟨d.constraints, flags⟩)
  | list {item item' : Ty Authored} (a : Authored) :
      Restates s names item item' → Restates s names (.list item a) (.list item' a)
  | map {key key' value value' : Ty Authored} (a : Authored) :
      Restates s names key key' → Restates s names value value' →
      Restates s names (.map key value a) (.map key' value' a)
  | tuple {types types' : List (Ty Authored)} (a : Authored) :
      List.Forall₂ (Restates s names) types types' →
      Restates s names (.tuple types a) (.tuple types' a)
  | arrow {ps ps' : List (Ty Authored)} {r r' : Ty Authored} (a : Authored) :
      List.Forall₂ (Restates s names) ps ps' → Restates s names r r' →
      Restates s names (.arrow ps r a) (.arrow ps' r' a)
  | union {ms ms' : List (Ty Authored)} (null : Option Authored) (a : Authored) :
      List.Forall₂ (Restates s names) ms ms' →
      Restates s names (.union ms null a) (.union ms' null a)

/-- The second class is the first with constraints repeated in its fields. -/
structure RestatesIn (s : Schema) (names : String → Prop) (d d' : ClassDef) : Prop where
  fields : List.Forall₂ (fun f f' => f.name = f'.name ∧ s.Restates names f.type f'.type)
    d.fields d'.fields
  constraints : d.constraints = d'.constraints

/-- The second schema is the first with constraints repeated in the fields of classes and in the
expansions of aliases. -/
structure Restating (s : Schema) (names : String → Prop) (s' : Schema) : Prop where
  enums : ∀ name, s.findEnum? name = s'.findEnum? name
  classes : ∀ name mode, Option.Rel (s.RestatesIn names) (s.findClass? name mode)
    (s'.findClass? name mode)
  expansions : ∀ name, Option.Rel (s.Restates names) (s.expand? name) (s'.expand? name)
  aliasNames : s.aliasNames = s'.aliasNames

/-- Nothing is recorded of the constraints of some enums: they are asserts that every value of the
enum passes. -/
def EnumsSilent (s : Schema) (names : String → Prop) (eval : Evaluator) : Prop :=
  ∀ name e, names name → s.findEnum? name = some e → ∀ x ∈ e.values, ∀ c ∈ e.constraints,
    c.level = .assert ∧ eval c.expression (Value.enumOf name x.name.real).plain = .ok true

section

variable {s s' : Schema} {names : String → Prop}

theorem Restates.refl (t : Ty Authored) : s.Restates names t t := by
  induction t using Ty.induct with
  | top a => exact .top a
  | prim p a => exact .prim p a
  | enumRef n d a => exact .enumRef n d a
  | literal l a => exact .literal l a
  | classRef n m d a => exact .classRef n m d a
  | list i a ih => exact .list a ih
  | map k v a ihk ihv => exact .map a ihk ihv
  | tuple is a ih => exact .tuple a (List.forall₂_same.2 ih)
  | aliasRef n m a => exact .aliasRef n m a
  | arrow ps r a ih ihr => exact .arrow a (List.forall₂_same.2 ih) ihr
  | union ms null a ih => exact .union null a (List.forall₂_same.2 ih)

theorem RestatesIn.refl (d : ClassDef) : s.RestatesIn names d d :=
  ⟨List.forall₂_same.2 fun _ _ => ⟨rfl, .refl _⟩, rfl⟩

/-- Constraints are repeated in a schema if they are in each of its classes and aliases, also in the
classes for partial values that are derived. -/
theorem restating_of_forall₂ (henums : s.enums = s'.enums)
    (hclasses : List.Forall₂ (fun d d' => d.name = d'.name ∧ d.mode = d'.mode ∧
      s.RestatesIn names d d' ∧ s.RestatesIn names d.streamed d'.streamed) s.classes s'.classes)
    (haliases : List.Forall₂ (fun p q => p.1 = q.1 ∧ s.Restates names p.2 q.2)
      s.aliases s'.aliases) : s.Restating names s' := by
  have hregistered : ∀ name mode, Option.Rel (fun d d' => s.RestatesIn names d d' ∧
      s.RestatesIn names d.streamed d'.streamed) (s.registered? name mode)
      (s'.registered? name mode) := by
    intro name mode
    have hmatch := hclasses.imp fun d d' h => And.intro (And.intro h.1 h.2.1) h.2.2
    refine rel_imp (rel_find? hmatch fun d d' h => ?_) fun d d' h => h.2
    rw [h.1.1, h.1.2]
  refine ⟨fun name => ?_, fun name mode => ?_, fun name => ?_, ?_⟩
  · unfold findEnum?
    rw [henums]
  · have hcomplete := hregistered name .complete
    cases mode with
    | complete => exact rel_imp hcomplete fun d d' h => h.1
    | partialValue =>
      refine rel_or (rel_imp (hregistered name .partialValue) fun d d' h => h.1) ?_
      exact rel_map hcomplete fun d d' h => h.2
  · refine rel_map (rel_find? haliases fun p q h => ?_) fun p q h => h.2
    rw [h.1]
  · exact (map_eq_of_forall₂ (haliases.imp fun p q h => h.1.symm)).symm

/-- Repeated constraints do not change which types accept null. -/
theorem acceptsNullAmong_restated (h : s.Restating names s') (pending : List String)
    {t t' : Ty Authored} (ht : s.Restates names t t') :
    s.acceptsNullAmong pending t = s'.acceptsNullAmong pending t' := by
  cases ht with
  | aliasRef name mode a =>
    have he := h.expansions name
    rw [acceptsNullAmong, acceptsNullAmong]
    generalize s.expand? name = e at he
    generalize s'.expand? name = e' at he
    cases he with
    | none => rfl
    | some he =>
      by_cases hmem : name ∈ pending
      · have hlt := length_erase_lt hmem
        simp only [dif_pos hmem]
        exact acceptsNullAmong_restated h _ he
      · simp only [dif_neg hmem]
  | @union ms ms' null a hms =>
    have hmem := (List.forall₂_and_left ms ms').2 ⟨fun _ hm => hm, hms⟩
    have hall : ms'.map (s'.acceptsNullAmong pending) = ms.map (s.acceptsNullAmong pending) := by
      refine map_eq_of_forall₂ (hmem.imp fun m m' hmm' => ?_)
      have hlt := List.sizeOf_lt_of_mem hmm'.1
      exact (acceptsNullAmong_restated h pending hmm'.2).symm
    have hany := congrArg (List.any · id) hall
    simp only [List.any_map, Function.id_comp] at hany
    rw [acceptsNullAmong, acceptsNullAmong]
    simp only [List.any_subtype, List.unattach_attach, hany]
  | _ => rw [acceptsNullAmong, acceptsNullAmong] <;> simp
termination_by (pending.length, sizeOf t)
decreasing_by
  · exact Prod.Lex.left _ _ hlt
  · apply Prod.Lex.right
    simp only [Ty.union.sizeOf_spec]
    omega

theorem acceptsNull_restated (h : s.Restating names s') {t t' : Ty Authored}
    (ht : s.Restates names t t') : s.acceptsNull t = s'.acceptsNull t' := by
  unfold acceptsNull
  rw [h.aliasNames]
  exact acceptsNullAmong_restated h _ ht

end

end Schema

/-! ## What counts of two runs -/

/-- Faults that differ at most in how the type that was expected is shown. -/
inductive Fault.Echoes : Fault → Fault → Prop where
  | refl (f : Fault) : Echoes f f
  | shown (path : Path) (expected expected' got : String) (m : Mismatch) :
      Echoes (.convert ⟨path, expected, got, m⟩) (.convert ⟨path, expected', got, m⟩)

/-- The second run records what the first does and maybe more, but no more if `silent`. -/
def restating (silent : Prop) : Likeness where
  notes n m := n.Within m ∧ (silent → n.Agree m)
  faults := Fault.Echoes
  notes_refl n := ⟨.refl n, fun _ => .refl n⟩
  faults_refl := .refl
  notes_append h k := ⟨h.1.append k.1, fun hs =>
    (Notes.agree_append_iff h.1 k.1).2 ⟨h.2 hs, k.2 hs⟩⟩
  notes_unjudging h k := by
    have hchecks := h.1.trans k.1.symm
    have hasserts := h.2.trans k.2.symm
    exact ⟨⟨hchecks ▸ .refl _, hasserts ▸ .refl _⟩, fun _ => ⟨hchecks, hasserts⟩⟩
  isMisfit h := by
    cases h with
    | refl => exact Iff.rfl
    | shown => exact iff_of_true ⟨_, rfl⟩ ⟨_, rfl⟩

namespace Checked

variable {α : Type} {silent q : Prop} {x y : Checked α}

theorem alike_of_trails (h : Trails q x y) (hx : x.Succeeds) (hq : silent → q) :
    Alike (restating silent) Eq x y := by
  obtain ⟨⟨a, n⟩, hn⟩ := hx
  obtain ⟨m, hm, hwithin, hagree⟩ := h a n hn
  unfold Alike
  rw [hn, hm]
  exact .ok rfl ⟨hwithin, fun hs => hagree.2 (hq hs)⟩

end Checked

namespace Coercer

open Checked

/-! ## Constraints of references and definitions -/

section

variable {c : Coercer} {d d' : ClassDef} {a : Authored}

/-- The constraints that are evaluated at a reference to a class: its own that the reference does
not repeat, then those of the reference. -/
def classConstraints (d : ClassDef) (a : Authored) : List Constraint :=
  ownConstraints d a ++ a.constraints

theorem classConstraints_congr (h : d.constraints = d'.constraints) (a : Authored) :
    classConstraints d a = classConstraints d' a := by
  unfold classConstraints ownConstraints
  rw [h]

/-- Whether a reference repeats all constraints of its class or none, each is evaluated once. -/
theorem classConstraints_restated (h : d.constraints = d'.constraints) (flags : StreamFlags) :
    classConstraints d ⟨[], flags⟩ = classConstraints d' ⟨d.constraints, flags⟩ := by
  unfold classConstraints ownConstraints
  rw [h]
  simp

theorem evaluate_append (v : Value) (cs ds : List Constraint) (eval : Evaluator) (sink : Sink) :
    evaluateConstraints v (cs ++ ds) eval sink =
      evaluateConstraints v cs eval sink >>= fun _ => evaluateConstraints v ds eval sink := by
  unfold evaluateConstraints
  exact List.forM_append

/-- Coercion at a reference to a class, its constraints included. -/
theorem coerce_classRef {pending : List String} {v : Value} {path : Path} {name : String}
    {mode : Mode} {dyn : Bool} {es : List (String × Value)}
    (hd : c.schema.findClass? name mode = some d) (hes : v.entries? = some es) :
    c.coerce pending v (.classRef name mode dyn a) path =
      (do
        let fs ← d.fields.mapM (c.coerceField es path)
        evaluateConstraints (.ofFields name fs) (classConstraints d a) c.eval c.sink
        return .ofFields name fs) := by
  rw [coerce, coerceForm_classRef hd hes]
  simp only [bind_assoc, pure_bind, classConstraints, evaluate_append]
  rfl

end

/-! ## Parts of a run -/

section

variable {s s' : Schema} {names : String → Prop} {eval : Evaluator} {silent : Prop} {v : Value}
  {path : Path}

theorem restated_wrongKind {α β : Type} {R : α → β → Prop} (t t' : Ty Authored) (v : Value)
    (path : Path) : Alike (restating silent) R (wrongKind t v path) (wrongKind t' v path) :=
  alike_fail (.shown _ _ _ _ _)

/-- Enum values do not depend on the reference that they come through. -/
theorem restated_coerceEnum {name : String} (h : s.findEnum? name = s'.findEnum? name)
    (t t' : Ty Authored) (v : Value) (path : Path) :
    Alike (restating silent) (fun x y => x = y ∧ ∃ e, s.findEnum? name = some e ∧
        ∃ k ∈ e.values, x = .enumOf name k.name.real)
      (coerceEnum ⟨s, eval, .quiet⟩ name t v path)
      (coerceEnum ⟨s', eval, .quiet⟩ name t' v path) := by
  unfold coerceEnum
  simp only [← h]
  cases he : s.findEnum? name with
  | none => exact alike_fail (L := restating silent) (.refl _)
  | some e =>
    cases v.variantName? with
    | none => exact restated_wrongKind t t' v path
    | some key =>
      simp only
      cases hx : e.findValue? key with
      | none => exact alike_fail (L := restating silent) (.refl _)
      | some x =>
        have hout : ∃ k ∈ e.values, Value.enumOf name x.name.real = .enumOf name k.name.real :=
          ⟨x, mem_of_findValue? hx, rfl⟩
        have hpure : Alike (restating silent) (fun x y => x = y ∧ ∃ e', some e = some e' ∧
            ∃ k ∈ e'.values, x = .enumOf name k.name.real)
            (Pure.pure (Value.enumOf name x.name.real)) (Pure.pure (.enumOf name x.name.real)) :=
          alike_pure ⟨rfl, e, rfl, hout⟩
        cases v with
        | text t => exact (alike_flag _ _).bind fun _ _ _ => hpure
        | _ => exact hpure

/-- Of the constraints that a reference to an enum repeats nothing is recorded if the enum is
silent. -/
theorem restated_enum {name : String} {e : EnumDef} (h : s.findEnum? name = s'.findEnum? name)
    (hname : names name) (he : s.findEnum? name = some e) (pending : List String) (v : Value)
    (dyn : Bool) (flags : StreamFlags) (path : Path) :
    Alike (restating (s.EnumsSilent names eval)) Eq
      (coerce ⟨s, eval, .quiet⟩ pending v (.enumRef name dyn ⟨[], flags⟩) path)
      (coerce ⟨s', eval, .quiet⟩ pending v (.enumRef name dyn ⟨e.constraints, flags⟩) path) := by
  rw [coerce, coerceForm, coerce, coerceForm]
  refine (restated_coerceEnum h _ _ v path).bind fun x y ⟨hxy, e', he', k, hk, hx⟩ => ?_
  obtain rfl := Option.some.inj (he.symm.trans he')
  rw [← hxy]
  have hjudged : Alike (restating (s.EnumsSilent names eval)) Eq (Pure.pure ())
      (evaluateConstraints x e.constraints eval .quiet) := by
    refine alike_of_trails (trails_evaluate x e.constraints) ⟨_, rfl⟩ fun hsilent c hc => ?_
    rw [hx]
    exact hsilent name e hname he k hk c hc
  exact hjudged.bind fun _ _ _ => alike_pure rfl

/-- The constraints of a reference are evaluated alike on what alike forms give. -/
theorem restated_of_form {pending pending' : List String} {t t' : Ty Authored}
    (h : Alike (restating silent) Eq (coerceForm ⟨s, eval, .quiet⟩ pending v t path)
      (coerceForm ⟨s', eval, .quiet⟩ pending' v t' path)) (hann : t.ann = t'.ann) :
    Alike (restating silent) Eq (coerce ⟨s, eval, .quiet⟩ pending v t path)
      (coerce ⟨s', eval, .quiet⟩ pending' v t' path) := by
  rw [coerce, coerce, hann]
  refine h.bind fun x y hxy => ?_
  rw [hxy]
  exact .refl (fun _ => rfl) _

/-- A field of a class and the same field with repeated constraints. -/
theorem restated_field (h : s.Restating names s') {es : List (String × Value)} {f f' : FieldDef}
    (hname : f.name = f'.name) (htype : s.Restates names f.type f'.type)
    (hrun : ∀ x, f.name.lookup? es = some x → Alike (restating silent) Eq
      (coerce ⟨s, eval, .quiet⟩ s.aliasNames x f.type (path.field f.name.real))
      (coerce ⟨s', eval, .quiet⟩ s.aliasNames x f'.type (path.field f.name.real))) :
    Alike (restating silent) Eq (coerceField ⟨s, eval, .quiet⟩ es path f)
      (coerceField ⟨s', eval, .quiet⟩ es path f') := by
  unfold coerceField
  simp only [← hname, ← Schema.acceptsNull_restated h htype, ← h.aliasNames]
  cases hx : f.name.lookup? es with
  | none =>
    simp only
    split
    · exact .refl (fun _ => rfl) _
    · exact alike_fail (.shown _ _ _ _ _)
  | some x =>
    simp only
    split
    · exact alike_fail (.shown _ _ _ _ _)
    · exact (hrun x hx).bind fun a b hab => alike_pure (by rw [hab])

/-- A class whose fields are coerced alike. -/
theorem restated_class {pending : List String} {name : String} {mode : Mode} {dyn : Bool}
    {a a' : Authored} {d d' : ClassDef} (hd : s.findClass? name mode = some d)
    (hd' : s'.findClass? name mode = some d')
    (hconstraints : classConstraints d a = classConstraints d' a')
    (hfields : ∀ es, v.entries? = some es → Alike (restating silent) (List.Forall₂ Eq)
      (d.fields.mapM (coerceField ⟨s, eval, .quiet⟩ es path))
      (d'.fields.mapM (coerceField ⟨s', eval, .quiet⟩ es path))) :
    Alike (restating silent) Eq
      (coerce ⟨s, eval, .quiet⟩ pending v (.classRef name mode dyn a) path)
      (coerce ⟨s', eval, .quiet⟩ pending v (.classRef name mode dyn a') path) := by
  cases hes : v.entries? with
  | none =>
    rw [coerce, coerce, coerceForm_classRef_misfit hd hes, coerceForm_classRef_misfit hd' hes]
    exact (restated_wrongKind (R := fun _ _ => False) _ _ v path).bind fun _ _ h => h.elim
  | some es =>
    rw [coerce_classRef hd hes, coerce_classRef hd' hes, hconstraints]
    refine (hfields es hes).bind fun xs ys hxys => ?_
    rw [List.forall₂_eq_eq_eq] at hxys
    rw [hxys]
    exact .refl (fun _ => rfl) _

/-- Entries of a map that are kept alike. -/
theorem eq_of_kept {xs ys : List (Option (String × Value))}
    (h : List.Forall₂ (Option.Rel fun p q => p.1 = q.1 ∧ p.2 = q.2) xs ys) : xs = ys := by
  rw [← List.forall₂_eq_eq_eq]
  refine h.imp fun p q hpq => ?_
  cases hpq with
  | none => rfl
  | some hpq => exact congrArg some (Prod.ext hpq.1 hpq.2)

/-- Two runs side by side, the second of which goes by repeated constraints. -/
theorem restated_coerce (h : s.Restating names s') (pending : List String) (v : Value)
    {t t' : Ty Authored} (ht : s.Restates names t t') (path : Path) :
    Alike (restating (s.EnumsSilent names eval)) Eq (coerce ⟨s, eval, .quiet⟩ pending v t path)
      (coerce ⟨s', eval, .quiet⟩ pending v t' path) := by
  -- the constraints of a class move from its form to the root, so both are compared as one
  have hclass : ∀ {name mode dyn a a' d d'}, s.findClass? name mode = some d →
      s'.findClass? name mode = some d' → s.RestatesIn names d d' →
      classConstraints d a = classConstraints d' a' →
      Alike (restating (s.EnumsSilent names eval)) Eq
        (coerce ⟨s, eval, .quiet⟩ pending v (.classRef name mode dyn a) path)
        (coerce ⟨s', eval, .quiet⟩ pending v (.classRef name mode dyn a') path) := by
    intro name mode dyn a a' d d' hd hd' hdd' hconstraints
    refine restated_class hd hd' hconstraints fun es hes => ?_
    refine alike_mapM hdd'.fields fun f _ f' hff' => restated_field h hff'.1 hff'.2 fun x hx => ?_
    obtain ⟨key, hkey⟩ := Name.mem_of_lookup? hx
    have hlt := Value.sizeOf_entry hes hkey
    exact restated_coerce h _ x hff'.2 _
  cases ht with
  | top a | prim p a | literal l a =>
    refine restated_of_form ?_ rfl
    rw [coerceForm, coerceForm]
    exact .refl (fun _ => rfl) _
  | enumRef name dyn a =>
    refine restated_of_form ?_ rfl
    rw [coerceForm, coerceForm]
    exact (restated_coerceEnum (h.enums name) _ _ v path).imp fun _ _ hxy => hxy.1
  | ofEnum dyn flags hname he => exact restated_enum (h.enums _) hname he pending v dyn flags path
  | classRef name mode dyn a =>
    have hrel := h.classes name mode
    generalize hd : s.findClass? name mode = d at hrel
    generalize hd' : s'.findClass? name mode = d' at hrel
    cases hrel with
    | none =>
      refine restated_of_form ?_ rfl
      rw [coerceForm, coerceForm]
      simp only [hd, hd']
      exact alike_fail (.refl _)
    | some hdd' => exact hclass hd hd' hdd' (classConstraints_congr hdd'.constraints a)
  | @ofClass name mode d dyn flags hd =>
    have hrel := h.classes name mode
    rw [hd] at hrel
    generalize hd' : s'.findClass? name mode = d' at hrel
    cases hrel with
    | some hdd' => exact hclass hd hd' hdd' (classConstraints_restated hdd'.constraints flags)
  | @list item item' a hitem =>
    refine restated_of_form ?_ rfl
    cases hitems : v.items? with
    | none =>
      rw [coerceForm_list_misfit hitems, coerceForm_list_misfit hitems]
      exact restated_wrongKind _ _ v path
    | some items =>
      rw [coerceForm_list hitems, coerceForm_list hitems]
      refine (alike_mapM_same fun p hp => ?_).map fun xs ys hxys =>
        congrArg Value.list (List.forall₂_eq_eq_eq ▸ hxys)
      have hlt := Value.sizeOf_item hitems (List.fst_mem_of_mem_zipIdx hp)
      rw [← h.aliasNames]
      exact restated_coerce h _ p.1 hitem _
  | @map key key' value value' a hkey hvalue =>
    refine restated_of_form ?_ rfl
    cases hes : v.entries? with
    | none =>
      rw [coerceForm_map_misfit hes, coerceForm_map_misfit hes]
      exact restated_wrongKind _ _ v path
    | some es =>
      rw [coerceForm_map hes, coerceForm_map hes]
      refine (alike_mapM_same fun p hp => ?_).bind fun xs ys hxys =>
        alike_pure (by rw [eq_of_kept hxys])
      have hlt := Value.sizeOf_entry hes hp
      rw [← h.aliasNames]
      exact alike_keepOrDrop (restated_coerce h _ p.2 hvalue _) p.1
  | @tuple types types' a htypes =>
    refine restated_of_form ?_ rfl
    have hlength := htypes.length_eq
    cases hitems : v.items? with
    | none =>
      rw [coerceForm_tuple_misfit (.inl hitems), coerceForm_tuple_misfit (.inl hitems)]
      exact restated_wrongKind _ _ v path
    | some items =>
      by_cases hlen : items.length = types.length
      · rw [coerceForm_tuple hitems hlen, coerceForm_tuple hitems (hlen.trans hlength)]
        have hsame : List.Forall₂ Eq items items := List.forall₂_refl items
        refine (alike_mapM (forall₂_zipIdx (forall₂_zip hsame htypes) 0)
          fun p hp q hpq => ?_).map fun xs ys hxys =>
            congrArg Value.list (List.forall₂_eq_eq_eq ▸ hxys)
        obtain ⟨hitem, -⟩ := List.of_mem_zip (List.fst_mem_of_mem_zipIdx hp)
        have hlt := Value.sizeOf_item hitems hitem
        rw [← hpq.2, ← hpq.1.1, ← h.aliasNames]
        exact restated_coerce h _ p.1.1 hpq.1.2 _
      · rw [coerceForm_tuple_misfit (.inr ⟨items, hitems, hlen⟩),
          coerceForm_tuple_misfit (.inr ⟨items, hitems, fun h => hlen (h.trans hlength.symm)⟩)]
        exact restated_wrongKind _ _ v path
  | @aliasRef name mode a =>
    refine restated_of_form ?_ rfl
    have hrel := h.expansions name
    generalize he : s.expand? name = e at hrel
    generalize he' : s'.expand? name = e' at hrel
    rw [coerceForm, coerceForm]
    simp only [he, he']
    cases hrel with
    | none => exact alike_fail (.refl _)
    | some hee' =>
      by_cases hmem : name ∈ pending
      · have hlt := length_erase_lt hmem
        simp only [dif_pos hmem]
        exact restated_coerce h _ v hee' path
      · simp only [dif_neg hmem]
        exact alike_fail (.refl _)
  | @arrow ps ps' r r' a _ _ =>
    refine restated_of_form ?_ rfl
    rw [coerceForm, coerceForm]
    exact restated_wrongKind _ _ v path
  | @union ms ms' null a hms =>
    refine restated_of_form ?_ rfl
    cases hnull : v.isNull && null.isSome with
    | true =>
      rw [coerceForm, coerceForm, hnull]
      exact alike_pure rfl
    | false =>
      rw [coerceForm_union hnull, coerceForm_union hnull, ← hms.length_eq]
      refine alike_firstFit (restated_wrongKind _ _ v path) ?_ .none
      rw [List.forall₂_map_left_iff, List.forall₂_map_right_iff]
      have hmem := (List.forall₂_and_left _ _).2 ⟨fun _ hm => hm, forall₂_zipIdx hms 0⟩
      refine hmem.imp fun m m' hmm' => ?_
      have hlt := List.sizeOf_lt_of_mem (List.fst_mem_of_mem_zipIdx hmm'.1)
      exact alike_coerceMember (restated_coerce h pending v hmm'.2.1 path) _
termination_by (sizeOf v, pending.length, sizeOf t)

/-! ## Top theorem -/

/-- A value of an enum, which only the constraints of the reference judge. -/
theorem coerce_enumOf {name : String} {e : EnumDef} {x : EnumValueDef} {a : Authored}
    (he : s.findEnum? name = some e) (hx : x ∈ e.values) (pending : List String) (dyn : Bool)
    (path : Path) :
    coerce ⟨s, eval, .quiet⟩ pending (.enumOf name x.name.real) (.enumRef name dyn a) path =
      (do
        evaluateConstraints (.enumOf name x.name.real) a.constraints eval .quiet
        return .enumOf name x.name.real) := by
  obtain ⟨y, hy, hreal⟩ := findValue?_of_mem hx
  rw [coerce, coerceForm, coerceEnum]
  simp only [he, Value.variantName?, hy, hreal, pure_bind, Ty.ann]

/-- What a reference to an enum leaves out by not repeating its constraints. -/
theorem trails_enumOf {name : String} {e : EnumDef} {x : EnumValueDef}
    (h : s.findEnum? name = s'.findEnum? name) (he : s.findEnum? name = some e)
    (hx : x ∈ e.values) (pending : List String) (dyn : Bool) (flags : StreamFlags) (path : Path) :
    Trails (∀ c ∈ e.constraints, c.level = .assert ∧
        eval c.expression (Value.enumOf name x.name.real).plain = .ok true)
      (coerce ⟨s, eval, .quiet⟩ pending (.enumOf name x.name.real)
        (.enumRef name dyn ⟨[], flags⟩) path)
      (coerce ⟨s', eval, .quiet⟩ pending (.enumOf name x.name.real)
        (.enumRef name dyn ⟨e.constraints, flags⟩) path) := by
  rw [coerce_enumOf he hx, coerce_enumOf (h.symm.trans he) hx]
  exact (trails_evaluate _ e.constraints).andThen _

theorem restated_run (h : s.Restating names s') (v : Value) {t t' : Ty Authored}
    (ht : s.Restates names t t') (path : Path) :
    Alike (restating (s.EnumsSilent names eval)) Eq (run ⟨s, eval, .quiet⟩ v t path)
      (run ⟨s', eval, .quiet⟩ v t' path) := by
  show Alike _ _ (coerce ⟨s, eval, .quiet⟩ s.aliasNames v t path)
    (coerce ⟨s', eval, .quiet⟩ s'.aliasNames v t' path)
  rw [← h.aliasNames]
  exact restated_coerce h s.aliasNames v ht path

/-- Coercion by types and definitions that repeat constraints gives the same value, with what is
recorded without the repeated constraints among what is recorded, or fails at the same place. In all
cases the same is recorded exactly if the enums whose constraints are repeated are silent. -/
theorem run_restated (h : s.Restating names s') (eval : Evaluator) :
    (∀ t t', s.Restates names t t' → ∀ v path,
      (∃ x n m, (run ⟨s, eval, .quiet⟩ v t path).result = .ok (x, n) ∧
        (run ⟨s', eval, .quiet⟩ v t' path).result = .ok (x, m) ∧ n.Within m) ∨
      ∃ f g, (run ⟨s, eval, .quiet⟩ v t path).result = .error f ∧
        (run ⟨s', eval, .quiet⟩ v t' path).result = .error g ∧ f.Echoes g) ∧
    ((∀ t t', s.Restates names t t' → ∀ v path x y n m,
        (run ⟨s, eval, .quiet⟩ v t path).result = .ok (x, n) →
        (run ⟨s', eval, .quiet⟩ v t' path).result = .ok (y, m) → n.Agree m) ↔
      s.EnumsSilent names eval) := by
  refine ⟨fun t t' ht v path => ?_, fun hagree name e hname he x hx => ?_, fun hsilent => ?_⟩
  · have halike : Alike (restating (s.EnumsSilent names eval)) Eq _ _ := restated_run h v ht path
    obtain ⟨x, _, n, m, hx, hy, rfl, hwithin, -⟩ | hfault := halike.results
    · exact .inl ⟨x, n, m, hx, hy, hwithin⟩
    · exact .inr hfault
  · have hbare : (run ⟨s, eval, .quiet⟩ (.enumOf name x.name.real) (.enumRef name false {})
        .root).result = .ok (.enumOf name x.name.real, {} ++ {}) := by
      rw [run, coerce_enumOf he hx]
      rfl
    obtain ⟨m, hm, -, hiff⟩ :=
      trails_enumOf (h.enums name) he hx s.aliasNames false {} .root _ _ hbare
    rw [h.aliasNames] at hm
    exact hiff.1 (hagree _ _ (.ofEnum false {} hname he) _ .root _ _ _ _ hbare hm)
  · intro t t' ht v path x y n m hx hy
    obtain ⟨_, m', hm, rfl, -, hagree⟩ := (restated_run h v ht path).result_ok hx
    obtain ⟨-, rfl⟩ := Prod.mk.inj (Except.ok.inj (hm.symm.trans hy))
    exact hagree hsilent

/-- Constraints of classes are evaluated however a class is referred to: no assert of a class is
passed by through a reference that does not repeat it. -/
theorem run_restated_classes (h : s.Restating (fun _ => False) s') {t t' : Ty Authored}
    (ht : s.Restates (fun _ => False) t t') (v : Value) (eval : Evaluator) (path : Path) :
    (∃ x n m, (run ⟨s, eval, .quiet⟩ v t path).result = .ok (x, n) ∧
        (run ⟨s', eval, .quiet⟩ v t' path).result = .ok (x, m) ∧ n.Agree m) ∨
      ∃ f g, (run ⟨s, eval, .quiet⟩ v t path).result = .error f ∧
        (run ⟨s', eval, .quiet⟩ v t' path).result = .error g ∧ f.Echoes g := by
  have halike : Alike (restating (s.EnumsSilent (fun _ => False) eval)) Eq _ _ :=
    restated_run h v ht path
  obtain ⟨x, _, n, m, hx, hy, rfl, -, hagree⟩ | hfault := halike.results
  · exact .inl ⟨x, n, m, hx, hy, hagree fun _ _ hname => hname.elim⟩
  · exact .inr hfault

end

/-! ## Shelves of crates -/

/-- A color under an assert. -/
def color (c : Constraint) : EnumDef where
  name := ⟨"Color", none⟩
  values := [⟨⟨"Red", some "rouge"⟩, none⟩]
  constraints := [c]

def crate : ClassDef where
  name := ⟨"Crate", none⟩
  fields := [⟨⟨"n", none⟩, .prim .int {}, none, false⟩]
  constraints := [⟨.assert, some "positive", "this.n > 0"⟩]

/-- A shelf refers to crates and to a color, which may be missing. -/
def shelf (crates color : Ty Authored) : ClassDef where
  name := ⟨"Shelf", none⟩
  fields := [⟨⟨"crates", none⟩, .list crates {}, none, false⟩,
    ⟨⟨"color", none⟩, .union [color] (some {}) {}, none, false⟩]

def shelves (c : Constraint) (crates paint : Ty Authored) : Schema where
  target := .classRef "Shelf" .complete false {}
  enums := [color c]
  classes := [crate, shelf crates paint]
  recursiveClasses := []
  aliases := []

/-- Crates and colors by references that repeat the constraints `cs` and `ds`. -/
def crates (cs : List Constraint) : Ty Authored := .classRef "Crate" .complete false ⟨cs, {}⟩

def paint (ds : List Constraint) : Ty Authored := .enumRef "Color" false ⟨ds, {}⟩

theorem restating_shelves (c : Constraint) : (shelves c (crates []) (paint [])).Restating
    (fun name => name = "Color") (shelves c (crates crate.constraints) (paint [c])) := by
  have hcrate : (shelves c (crates []) (paint [])).findClass? "Crate" .complete = some crate := rfl
  have hcrate' : (shelves c (crates []) (paint [])).findClass? "Crate" .partialValue =
    some crate.streamed := rfl
  have hcolor : (shelves c (crates []) (paint [])).findEnum? "Color" = some (color c) := rfl
  refine Schema.restating_of_forall₂ rfl (.cons ⟨rfl, rfl, .refl _, .refl _⟩
    (.cons ⟨rfl, rfl, ⟨?_, rfl⟩, ?_, rfl⟩ .nil)) .nil
  · refine .cons ⟨rfl, .list _ (.ofClass _ _ hcrate)⟩ (.cons ⟨rfl, ?_⟩ .nil)
    exact .union _ _ (.cons (.ofEnum _ _ (by rfl) hcolor) .nil)
  · refine .cons ⟨rfl, .list _ (.union _ _ (.cons ?_ .nil))⟩ (.cons ⟨rfl, ?_⟩ .nil)
    · exact .ofClass (d := crate.streamed) _ _ hcrate'
    · exact .union _ _ (.cons (.ofEnum _ _ (by rfl) hcolor) .nil)

/-- A shelf with one crate. -/
def laden : Value :=
  .map [("crates", .list [.map [("n", .int 0)]]), ("color", .text "rouge")]

theorem admits_laden (c : Constraint) : (shelves c (crates []) (paint [])).Admits laden
    (shelves c (crates []) (paint [])).target := by
  refine .classRef (d := shelf (crates []) (paint [])) rfl rfl fun f hf => ?_
  simp only [shelf, List.mem_cons, List.not_mem_nil, or_false] at hf
  rcases hf with rfl | rfl
  · refine .list rfl fun x hx => ?_
    rw [List.mem_singleton.1 hx]
    refine .classRef (d := crate) rfl rfl fun f hf => ?_
    rw [List.mem_singleton.1 hf]
    exact .prim rfl
  · exact .unionMember List.mem_cons_self (.enumRef (e := color c) rfl rfl rfl)

/-- The assert of the crate fails and is recorded either way, the color passes its own. -/
theorem run_restated_shelves :
    let c : Constraint := ⟨.assert, none, "this == \"Red\""⟩
    let eval : Evaluator := fun e _ => .ok (e == c.expression)
    let s := shelves c (crates []) (paint [])
    let s' := shelves c (crates crate.constraints) (paint [c])
    s.Closed ∧ s.Restating (fun name => name = "Color") s' ∧
      s.EnumsSilent (fun name => name = "Color") eval ∧
      ∃ x n m, (run ⟨s, eval, .quiet⟩ laden s.target .root).result = .ok (x, n) ∧
        (run ⟨s', eval, .quiet⟩ laden s.target .root).result = .ok (x, m) ∧ n.Agree m := by
  intro c eval s s'
  have hc : s.Closed := Schema.closed_of_offersAll (by decide) (by decide)
  have hg : s.Guarded := Schema.guarded_of_expand?_none fun _ => rfl
  have h : s.Restating (fun name => name = "Color") s' := restating_shelves c
  have hsilent : s.EnumsSilent (fun name => name = "Color") eval := by
    intro name e hname he x hx d hd
    obtain rfl := hname
    obtain rfl : color c = e := Option.some.inj he
    rw [List.mem_singleton.1 hd]
    exact ⟨rfl, congrArg Except.ok (beq_self_eq_true c.expression)⟩
  obtain ⟨hrun, hagree⟩ := run_restated h eval
  refine ⟨hc, h, hsilent, ?_⟩
  rcases hrun _ _ (.refl s.target) laden .root with ⟨x, n, m, hx, hy, -⟩ | ⟨f, g, hf, -, -⟩
  · exact ⟨x, n, m, hx, hy, hagree.2 hsilent _ _ (.refl _) _ _ _ _ _ _ hx hy⟩
  · obtain ⟨p, hp⟩ := (succeeds_run_iff hc hg (Schema.knows_of_offersAll (by decide)) laden
      .root).2 (admits_laden c)
    cases hp.symm.trans hf

/-- An assert of an enum that its reference does not repeat is never evaluated. -/
theorem run_restated_differs :
    (shelves ⟨.assert, some "never", "this == \"Blue\""⟩ (crates []) (paint [])).Closed ∧
    ((Coercer.mk (shelves ⟨.assert, some "never", "this == \"Blue\""⟩ (crates []) (paint []))
      (fun _ _ => .ok false) .quiet).run (.text "Red") (paint []) .root).result.map
        (fun p => (p.1, p.2.failedAsserts)) = .ok (.enumOf "Color" "Red", []) ∧
    ((Coercer.mk (shelves ⟨.assert, some "never", "this == \"Blue\""⟩ (crates []) (paint []))
      (fun _ _ => .ok false) .quiet).run (.text "Red")
        (paint [⟨.assert, some "never", "this == \"Blue\""⟩]) .root).result.map
        (fun p => (p.1, p.2.failedAsserts)) =
          .ok (.enumOf "Color" "Red", [⟨"never", "this == \"Blue\"", false⟩]) := by
  refine ⟨Schema.closed_of_offersAll (by decide) (by decide), ?_, ?_⟩
  all_goals
    simp [run, shelves, color, paint, coerce, coerceForm, coerceEnum, Schema.findEnum?,
      EnumDef.findValue?, Value.variantName?]
    rfl

end Coercer

end ShapeSchema
