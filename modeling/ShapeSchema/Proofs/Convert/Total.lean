import Mathlib.Logic.Relation
import ShapeSchema.Convert.Coerce
import ShapeSchema.Proofs.Convert.Checked
import ShapeSchema.Proofs.Schema.Closed
import ShapeSchema.Proofs.Shape.Finished

/-!
# Coercion always ends

On a closed schema whose aliases do not lead back to themselves without going into a value, coercing
any value to any type ends: it gives a value, or the value does not fit (`Coercer.total`). Classes
may be recursive in any way, also if no finite value inhabits them, since a class is only entered
together with a part of the value.

Between two parts of a value an alias may be expanded once. `Schema.Ready` says that all aliases that
a type can still lead to are among those that may be expanded; an expansion keeps it, because a
guarded alias does not lead to itself. Built schemas are closed and have no aliases, so that coercion
by them always ends (`Coercer.settles_built`).
-/

namespace ShapeSchema

open Relation

/-! ## Aliases that are expanded in place -/

/-- An alias is met without going into a value: at the root or in a member of a union there. -/
inductive Ty.Opens : Ty Authored → String → Prop where
  | here (name : String) (mode : Mode) (a : Authored) : Opens (.aliasRef name mode a) name
  | member {t : Ty Authored} {ms : List (Ty Authored)} {null : Option Authored} {a : Authored}
      {name : String} : t ∈ ms → t.Opens name → Opens (.union ms null a) name

namespace Schema

/-- The expansion of an alias meets an alias in place. -/
def Unfolds (s : Schema) (a b : String) : Prop := ∃ e, s.expand? a = some e ∧ e.Opens b

/-- Every cycle of expansions goes into a value on its way. -/
def Guarded (s : Schema) : Prop := ∀ name, ¬ TransGen s.Unfolds name name

/-- All aliases that a type leads to in place may still be expanded. -/
def Ready (s : Schema) (pending : List String) (t : Ty Authored) : Prop :=
  ∀ a b, t.Opens a → ReflTransGen s.Unfolds a b → (s.expand? b).isSome = true → b ∈ pending

variable {s : Schema}

/-- A schema without aliases has no cycles. -/
theorem guarded_of_expand?_none (h : ∀ name, s.expand? name = none) : s.Guarded := by
  intro name hcycle
  obtain ⟨_, ⟨e, he, -⟩, -⟩ := TransGen.head'_iff.1 hcycle
  rw [h] at he
  cases he

theorem ready_aliasNames (s : Schema) (t : Ty Authored) : s.Ready s.aliasNames t := by
  intro a b _ _ hb
  show b ∈ Entries.keys s.aliases
  by_contra hnot
  unfold expand? at hb
  rw [Entries.find?_eq_none.2 hnot] at hb
  cases hb

theorem Ready.member {pending : List String} {ms : List (Ty Authored)} {null : Option Authored}
    {a : Authored} (h : s.Ready pending (.union ms null a)) {m : Ty Authored} (hm : m ∈ ms) :
    s.Ready pending m := fun c d hc => h c d (.member hm hc)

theorem Ready.mem {pending : List String} {name : String} {mode : Mode} {a : Authored}
    (h : s.Ready pending (.aliasRef name mode a)) (he : (s.expand? name).isSome = true) :
    name ∈ pending := h name name (.here name mode a) .refl he

/-- An alias that was expanded is not met again. -/
theorem Ready.expand (hg : s.Guarded) {pending : List String} {name : String} {mode : Mode}
    {a : Authored} (h : s.Ready pending (.aliasRef name mode a)) {e : Ty Authored}
    (he : s.expand? name = some e) : s.Ready (pending.erase name) e := by
  intro c d hc hcd hd
  have hstep : s.Unfolds name c := ⟨e, he, hc⟩
  have hne : d ≠ name := by
    rintro rfl
    exact hg d (.head' hstep hcd)
  have hmem : d ∈ pending := h name d (.here name mode a) (.head hstep hcd) hd
  exact (List.mem_erase_of_ne hne).2 hmem

end Schema

/-! ## Runs that give a value or a misfit -/

namespace Checked

variable {α β : Type}

/-- A run gives a value, or a value does not fit; nothing else ends it. -/
def Settles (x : Checked α) : Prop :=
  (∃ p, x.result = .ok p) ∨ ∃ e, x.result = .error (.convert e)

theorem settles_pure (a : α) : (Pure.pure a : Checked α).Settles := .inl ⟨_, rfl⟩

theorem settles_note (n : Notes) : (note n).Settles := .inl ⟨_, rfl⟩

theorem settles_misfit (e : ConvertError) : (fail (.convert e) : Checked α).Settles := .inr ⟨e, rfl⟩

theorem Settles.bind {x : Checked α} {f : α → Checked β} (hx : x.Settles)
    (hf : ∀ a, (f a).Settles) : (x >>= f).Settles := by
  show (Checked.bind x f).Settles
  unfold Checked.bind Settles
  rcases hx with ⟨⟨a, n⟩, hx⟩ | ⟨e, hx⟩
  · rw [hx]
    rcases hf a with ⟨⟨b, m⟩, hy⟩ | ⟨e, hy⟩
    · exact .inl ⟨_, by simp only [hy]; rfl⟩
    · exact .inr ⟨e, by simp only [hy]; rfl⟩
  · rw [hx]
    exact .inr ⟨e, rfl⟩

theorem Settles.map {x : Checked α} (hx : x.Settles) (f : α → β) : (f <$> x).Settles :=
  hx.bind fun a => settles_pure (f a)

theorem settles_mapM {f : α → Checked β} :
    ∀ {xs : List α}, (∀ x ∈ xs, (f x).Settles) → (xs.mapM f).Settles := by
  intro xs
  induction xs with
  | nil =>
    intro _
    exact settles_pure []
  | cons x xs ih =>
    intro h
    rw [List.mapM_cons]
    refine (h x List.mem_cons_self).bind fun y => ?_
    refine (ih fun x' hx' => h x' (List.mem_cons_of_mem _ hx')).bind fun ys => ?_
    exact settles_pure (y :: ys)

theorem settles_forM {f : α → Checked Unit} (h : ∀ x, (f x).Settles) :
    ∀ xs : List α, (xs.forM f).Settles := by
  intro xs
  induction xs with
  | nil => exact settles_pure ()
  | cons x xs ih => exact (h x).bind fun _ => ih

end Checked

open Checked

/-- An evaluator that gives up only makes a constraint fail. -/
theorem settles_evaluate (v : Value) (cs : List Constraint) (eval : Evaluator) :
    (evaluateConstraints v cs eval .quiet).Settles := by
  refine settles_forM (fun c => ?_) cs
  unfold Constraint.evaluate
  split
  · exact settles_note _
  · exact Settles.bind (.inl ⟨_, rfl⟩) fun _ => settles_note _

namespace Coercer

variable {c : Coercer}

theorem settles_wrongKind {α : Type} (t : Ty Authored) (v : Value) (path : Path) :
    (wrongKind t v path : Checked α).Settles := settles_misfit _

theorem settles_coercePrim (p : Prim) (t : Ty Authored) (v : Value) (path : Path) :
    (coercePrim p t v path).Settles := by
  unfold coercePrim
  split
  case h_4 => exact (settles_note _).bind fun _ => settles_pure _
  case h_7 =>
    split
    · exact settles_pure _
    · exact settles_wrongKind _ _ _
  case h_8 => exact settles_wrongKind _ _ _
  all_goals exact settles_pure _

theorem settles_coerceEnum {name : String} (h : (c.schema.findEnum? name).isSome = true)
    (t : Ty Authored) (v : Value) (path : Path) : (c.coerceEnum name t v path).Settles := by
  obtain ⟨e, he⟩ := Option.isSome_iff_exists.1 h
  unfold coerceEnum
  rw [he]
  cases v.variantName? with
  | none => exact settles_wrongKind t v path
  | some key =>
    cases hx : e.findValue? key with
    | none =>
      simp only [hx]
      exact settles_misfit _
    | some x =>
      simp only [hx]
      split
      · exact (settles_note _).bind fun _ => settles_pure _
      · exact settles_pure _

theorem settles_firstFit {whenEmpty : Checked Value} (hempty : whenEmpty.Settles)
    {runs : List (Unit → Checked Value)} (h : ∀ run ∈ runs, (run ()).Settles) (last : Option Fault)
    (hlast : ∀ e, last = some e → ∃ m, e = .convert m) :
    (firstFit last whenEmpty runs).Settles := by
  induction runs generalizing last with
  | nil =>
    cases last with
    | none => exact hempty
    | some e =>
      obtain ⟨m, rfl⟩ := hlast e rfl
      exact settles_misfit m
  | cons run runs ih =>
    rw [firstFit]
    rcases h run List.mem_cons_self with ⟨p, hp⟩ | ⟨m, hm⟩
    · simp only [hp]
      exact .inl ⟨p, hp⟩
    · simp only [hm]
      exact ih (fun r hr => h r (List.mem_cons_of_mem _ hr)) (some (.convert m)) fun e he =>
        ⟨m, (Option.some.inj he).symm⟩

theorem settles_keepOrDrop (key : String) {x : Checked Value} (hx : x.Settles) :
    (keepOrDrop .quiet key x).Settles := by
  unfold keepOrDrop
  rcases hx with ⟨⟨v, n⟩, hx⟩ | ⟨e, hx⟩
  · simp only [hx]
    exact .inl ⟨_, rfl⟩
  · simp only [hx]
    exact .inl ⟨_, rfl⟩

/-! ## Coercion -/

section Run

variable {s : Schema} {eval : Evaluator}

/-- Looking for a class's fields in a value. -/
theorem settles_fields (d : ClassDef) (a : Authored) (name : String)
    (f : FieldDef → Checked (String × Value)) (hf : ∀ x ∈ d.fields, (f x).Settles) :
    (do
      let fs ← d.fields.mapM f
      let out := Value.ofFields name fs
      evaluateConstraints out (ownConstraints d a) eval .quiet
      return out).Settles := by
  refine (settles_mapM hf).bind fun fs => ?_
  exact (settles_evaluate _ _ eval).bind fun _ => settles_pure _

mutual

theorem coerce_settles (hc : s.Closed) (hg : s.Guarded) (pending : List String) (v : Value)
    (t : Ty Authored) (path : Path) (hk : s.Knows t) (hr : s.Ready pending t) :
    (coerce ⟨s, eval, .quiet⟩ pending v t path).Settles := by
  rw [coerce]
  refine (coerceForm_settles hc hg pending v t path hk hr).bind fun out => ?_
  exact (settles_evaluate _ _ eval).bind fun _ => settles_pure _
termination_by (sizeOf v, pending.length, sizeOf t, 1)

theorem coerceForm_settles (hc : s.Closed) (hg : s.Guarded) (pending : List String) (v : Value)
    (t : Ty Authored) (path : Path) (hk : s.Knows t) (hr : s.Ready pending t) :
    (coerceForm ⟨s, eval, .quiet⟩ pending v t path).Settles := by
  have hroot : s.Resolves t := hk t t.mem_nodes
  match t with
  | .top a =>
    rw [coerceForm]
    exact settles_pure v
  | .prim p a =>
    rw [coerceForm]
    exact settles_coercePrim p _ v path
  | .literal l a =>
    rw [coerceForm]
    split
    · exact settles_pure v
    · exact settles_misfit _
  | .enumRef name d a =>
    rw [coerceForm]
    exact settles_coerceEnum (c := ⟨s, eval, .quiet⟩) hroot _ v path
  | .classRef name mode dyn a =>
    obtain ⟨d, hd⟩ := Option.isSome_iff_exists.1 hroot
    rw [coerceForm]
    simp only [hd]
    split
    · exact settles_wrongKind _ v path
    · next es hes =>
      refine settles_fields d a name _ fun f hf => ?_
      split
      · split
        · exact (settles_note _).bind fun _ => settles_pure _
        · exact settles_misfit _
      · next found hfound =>
        split
        · exact settles_misfit _
        · obtain ⟨key, hkey⟩ := Name.mem_of_lookup? hfound
          have hlt := Value.sizeOf_entry hes hkey
          exact (coerce_settles hc hg _ found f.type _ (hc.fields _ _ _ hd f hf)
            (s.ready_aliasNames _)).bind fun _ => settles_pure _
  | .list item a =>
    rw [coerceForm]
    split
    · exact settles_wrongKind _ v path
    · next items hitems =>
      refine Settles.map (settles_mapM fun p _ => ?_) _
      have hlt := Value.sizeOf_item hitems p.1.property
      exact coerce_settles hc hg _ p.1.val item _ hk.list (s.ready_aliasNames _)
  | .map key value a =>
    rw [coerceForm]
    split
    · exact settles_wrongKind _ v path
    · next es hes =>
      refine Settles.bind (settles_mapM fun p _ => ?_) fun _ => settles_pure _
      have hlt := Value.sizeOf_entry hes p.property
      exact settles_keepOrDrop _ (coerce_settles hc hg _ p.val.2 value _ hk.value
        (s.ready_aliasNames _))
  | .tuple types a =>
    rw [coerceForm]
    split
    · exact settles_wrongKind _ v path
    · next items hitems =>
      split
      · refine Settles.map (settles_mapM fun p hp => ?_) _
        have hlt := Value.sizeOf_item hitems p.1.1.property
        have hmem : p.1.2 ∈ types := (List.of_mem_zip (List.fst_mem_of_mem_zipIdx hp)).2
        exact coerce_settles hc hg _ p.1.1.val p.1.2 _ (hk.item hmem) (s.ready_aliasNames _)
      · exact settles_wrongKind _ v path
  | .aliasRef name mode a =>
    obtain ⟨e, he⟩ := Option.isSome_iff_exists.1 hroot
    have hmem : name ∈ pending := hr.mem hroot
    have hlt := length_erase_lt hmem
    rw [coerceForm]
    simp only [he, dif_pos hmem]
    exact coerce_settles hc hg _ v e path (hc.expansions name e he) (hr.expand hg he)
  | .arrow ps r a =>
    rw [coerceForm]
    exact settles_wrongKind _ v path
  | .union ms null a =>
    rw [coerceForm]
    split
    · exact settles_pure v
    · refine settles_firstFit (settles_wrongKind _ v path) (fun run hrun => ?_) none (by simp)
      obtain ⟨m, hm, rfl⟩ := List.mem_map.1 hrun
      have hlt := List.sizeOf_lt_of_mem m.1.property
      refine (coerce_settles hc hg pending v m.1.val path (hk.member m.1.property)
        (hr.member m.1.property)).bind fun out => ?_
      dsimp only
      split
      · exact (settles_note _).bind fun _ => settles_pure _
      · exact settles_pure _
termination_by (sizeOf v, pending.length, sizeOf t, 0)
decreasing_by
  · exact Prod.Lex.left _ _ hlt
  · exact Prod.Lex.left _ _ hlt
  · exact Prod.Lex.left _ _ hlt
  · exact Prod.Lex.left _ _ hlt
  · exact Prod.Lex.right _ (Prod.Lex.left _ _ hlt)
  · apply Prod.Lex.right
    apply Prod.Lex.right
    apply Prod.Lex.left
    simp only [Ty.union.sizeOf_spec]
    omega

end

/-- Coercing a value to a type that a closed schema knows gives a value, or a value does not fit. -/
theorem settles_run (hc : s.Closed) (hg : s.Guarded) (v : Value) {t : Ty Authored}
    (ht : s.Knows t) (path : Path) : (run ⟨s, eval, .quiet⟩ v t path).Settles :=
  coerce_settles hc hg s.aliasNames v t path ht (s.ready_aliasNames t)

/-- Coercing a value by the schema of a shape gives a value, or a value does not fit. -/
theorem settles_built {g : Graph} {root : ShapeId} {tag : String} {b : Bundle} {st : BuildState}
    (hfree : g.Below Shape.CodecFree root) (hb : buildSchema g root tag = (.ok b, st)) (v : Value)
    (path : Path) : (run ⟨b.schema, eval, .quiet⟩ v b.schema.target path).Settles := by
  obtain ⟨t, rfl, built⟩ := Builder.built_of_buildSchema hfree hb
  have hnone : ∀ name, (Bundle.of st t tag).schema.expand? name = none := by
    intro name
    show Entries.find? st.registry.aliases name = none
    rw [built.sound.aliases]
    rfl
  exact settles_run built.closed (Schema.guarded_of_expand?_none hnone) v
    (Schema.knows_of_offersAll built.offersAll.1) path

end Run

end Coercer

end ShapeSchema
