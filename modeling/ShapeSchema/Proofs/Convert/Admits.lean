import ShapeSchema.Proofs.Convert.Fits
import ShapeSchema.Proofs.Convert.Total

/-!
# Values that a type admits

`Schema.Admits` says by induction which values coercion takes at a type, whatever becomes of them
there. A field that is missing counts as a null, so that one rule speaks of all fields of a class,
and the entries of a map may be anything, since those that do not fit are dropped. On a closed
schema with guarded aliases coercion succeeds on these values and no others
(`Coercer.succeeds_run_iff`); what decides is the form of the types, never their annotations
(`Admits.withAnn`).
-/

namespace ShapeSchema

/-- Is a value taken at a primitive type? Whole numbers stand in for floats. -/
def Prim.takes (p : Prim) (v : Value) : Bool :=
  match p, v with
  | .string, .text _ => true
  | .int, .int _ => true
  | .float, .float _ => true
  | .float, .int _ => true
  | .bool, .bool _ => true
  | .null, .null => true
  | .media kind, .media m => m.kind = kind
  | _, _ => false

/-- A value is taken at a type. -/
inductive Schema.Admits (s : Schema) : Value → Ty Authored → Prop where
  | top {v : Value} {a : Authored} : Admits s v (.top a)
  | prim {v : Value} {p : Prim} {a : Authored} : p.takes v = true → Admits s v (.prim p a)
  | literal {v : Value} {l : Literal} {a : Authored} :
      l.matches v = true → Admits s v (.literal l a)
  | enumRef {v : Value} {name key : String} {dyn : Bool} {a : Authored} {e : EnumDef} :
      s.findEnum? name = some e → v.variantName? = some key → (e.findValue? key).isSome = true →
      Admits s v (.enumRef name dyn a)
  | classRef {v : Value} {name : String} {mode : Mode} {dyn : Bool} {a : Authored} {d : ClassDef}
      {es : List (String × Value)} :
      s.findClass? name mode = some d → v.entries? = some es →
      (∀ f ∈ d.fields, Admits s ((f.name.lookup? es).getD .null) f.type) →
      Admits s v (.classRef name mode dyn a)
  | list {v : Value} {items : List Value} {item : Ty Authored} {a : Authored} :
      v.items? = some items → (∀ x ∈ items, Admits s x item) → Admits s v (.list item a)
  | map {v : Value} {es : List (String × Value)} {key value : Ty Authored} {a : Authored} :
      v.entries? = some es → Admits s v (.map key value a)
  | tuple {v : Value} {items : List Value} {types : List (Ty Authored)} {a : Authored} :
      v.items? = some items → items.length = types.length →
      (∀ p ∈ items.zip types, Admits s p.1 p.2) → Admits s v (.tuple types a)
  | aliasRef {v : Value} {name : String} {mode : Mode} {a : Authored} {e : Ty Authored} :
      s.expand? name = some e → Admits s v e → Admits s v (.aliasRef name mode a)
  | unionNull {ms : List (Ty Authored)} {n a : Authored} : Admits s .null (.union ms (some n) a)
  | unionMember {v : Value} {m : Ty Authored} {ms : List (Ty Authored)} {null : Option Authored}
      {a : Authored} : m ∈ ms → Admits s v m → Admits s v (.union ms null a)

namespace Schema

variable {s : Schema} {v : Value}

theorem Admits.withAnn {t : Ty Authored} (h : s.Admits v t) (a : Authored) :
    s.Admits v (t.withAnn a) := by
  cases h with
  | top => exact .top
  | prim h => exact .prim h
  | literal h => exact .literal h
  | enumRef he hv hx => exact .enumRef he hv hx
  | classRef hd hes hfs => exact .classRef hd hes hfs
  | list hitems h => exact .list hitems h
  | map hes => exact .map hes
  | tuple hitems hlen h => exact .tuple hitems hlen h
  | aliasRef he h => exact .aliasRef he h
  | unionNull => exact .unionNull
  | unionMember hm h => exact .unionMember hm h

/-! ## What a type asks of a value -/

section
variable {a : Authored}

theorem admits_classRef_iff {name : String} {mode : Mode} {dyn : Bool} {d : ClassDef}
    {es : List (String × Value)} (hd : s.findClass? name mode = some d)
    (hes : v.entries? = some es) : s.Admits v (.classRef name mode dyn a) ↔
      ∀ f ∈ d.fields, s.Admits ((f.name.lookup? es).getD .null) f.type := by
  refine ⟨fun h => ?_, .classRef hd hes⟩
  cases h with
  | classRef hd' hes' hfs =>
    obtain rfl := Option.some.inj (hd.symm.trans hd')
    obtain rfl := Option.some.inj (hes.symm.trans hes')
    exact hfs

theorem admits_list_iff {items : List Value} {item : Ty Authored} (hitems : v.items? = some items) :
    s.Admits v (.list item a) ↔ ∀ x ∈ items, s.Admits x item := by
  refine ⟨fun h => ?_, .list hitems⟩
  cases h with
  | list hitems' h =>
    obtain rfl := Option.some.inj (hitems.symm.trans hitems')
    exact h

theorem admits_tuple_iff {items : List Value} {types : List (Ty Authored)}
    (hitems : v.items? = some items) : s.Admits v (.tuple types a) ↔
      items.length = types.length ∧ ∀ p ∈ items.zip types, s.Admits p.1 p.2 := by
  refine ⟨fun h => ?_, fun h => .tuple hitems h.1 h.2⟩
  cases h with
  | tuple hitems' hlen h =>
    obtain rfl := Option.some.inj (hitems.symm.trans hitems')
    exact ⟨hlen, h⟩

theorem admits_aliasRef_iff {name : String} {mode : Mode} {e : Ty Authored}
    (he : s.expand? name = some e) : s.Admits v (.aliasRef name mode a) ↔ s.Admits v e := by
  refine ⟨fun h => ?_, .aliasRef he⟩
  cases h with
  | aliasRef he' h =>
    obtain rfl := Option.some.inj (he.symm.trans he')
    exact h

theorem admits_union_iff {ms : List (Ty Authored)} {null : Option Authored} :
    s.Admits v (.union ms null a) ↔
      (v.isNull && null.isSome) = true ∨ ∃ m ∈ ms, s.Admits v m := by
  constructor
  · intro h
    cases h with
    | unionNull => exact .inl rfl
    | unionMember hm h => exact .inr ⟨_, hm, h⟩
  · rintro (h | ⟨m, hm, h⟩)
    · rw [Bool.and_eq_true, Option.isSome_iff_exists] at h
      obtain ⟨hv, n, rfl⟩ := h
      cases v with
      | null => exact .unionNull
      | _ => cases hv
    · exact .unionMember hm h

end

/-! ## Null -/

/-- The types that admit a null are those that accept it without looking. -/
theorem acceptsNullAmong_iff (hg : s.Guarded) (pending : List String) (t : Ty Authored)
    (hr : s.Ready pending t) : s.acceptsNullAmong pending t = true ↔ s.Admits .null t := by
  match t with
  | .top a =>
    rw [acceptsNullAmong]
    exact iff_of_true rfl .top
  | .prim p a =>
    rw [acceptsNullAmong]
    refine ⟨fun h => .prim ?_, fun h => ?_⟩
    · rw [beq_iff_eq.1 h]
      rfl
    · cases h with
      | prim h => cases p <;> first | rfl | cases h
  | .union ms null a =>
    rw [acceptsNullAmong, admits_union_iff, Bool.or_eq_true, List.any_eq_true]
    refine or_congr Iff.rfl ⟨?_, ?_⟩
    · rintro ⟨m, -, h⟩
      have hlt := List.sizeOf_lt_of_mem m.property
      exact ⟨m.val, m.property, (acceptsNullAmong_iff hg pending m.val (hr.member m.property)).1 h⟩
    · rintro ⟨m, hm, h⟩
      have hlt := List.sizeOf_lt_of_mem hm
      exact ⟨⟨m, hm⟩, List.mem_attach _ _, (acceptsNullAmong_iff hg pending m (hr.member hm)).2 h⟩
  | .aliasRef name mode a =>
    rw [acceptsNullAmong]
    cases he : s.expand? name with
    | none =>
      refine iff_of_false (by simp) fun h => ?_
      cases h with
      | aliasRef he' => rw [he] at he'; cases he'
    | some e =>
      have hmem : name ∈ pending := hr.mem (by rw [he]; rfl)
      have hlt := length_erase_lt hmem
      simp only [dif_pos hmem]
      rw [admits_aliasRef_iff he]
      exact acceptsNullAmong_iff hg (pending.erase name) e (hr.expand hg he)
  | .literal l a =>
    unfold acceptsNullAmong
    refine iff_of_false Bool.false_ne_true fun h => ?_
    cases h with
    | literal h => cases l <;> cases h
  | .enumRef n d a =>
    unfold acceptsNullAmong
    refine iff_of_false Bool.false_ne_true fun h => ?_
    cases h with
    | enumRef _ h _ => cases h
  | .classRef n m d a =>
    unfold acceptsNullAmong
    refine iff_of_false Bool.false_ne_true fun h => ?_
    cases h with
    | classRef _ h _ => cases h
  | .list i a =>
    unfold acceptsNullAmong
    refine iff_of_false Bool.false_ne_true fun h => ?_
    cases h with
    | list h _ => cases h
  | .map k w a =>
    unfold acceptsNullAmong
    refine iff_of_false Bool.false_ne_true fun h => ?_
    cases h with
    | map h => cases h
  | .tuple is a =>
    unfold acceptsNullAmong
    refine iff_of_false Bool.false_ne_true fun h => ?_
    cases h with
    | tuple h _ _ => cases h
  | .arrow ps r a =>
    unfold acceptsNullAmong
    refine iff_of_false Bool.false_ne_true fun h => ?_
    cases h
termination_by (pending.length, sizeOf t)
decreasing_by
  · apply Prod.Lex.right
    simp only [Ty.union.sizeOf_spec]
    omega
  · apply Prod.Lex.right
    simp only [Ty.union.sizeOf_spec]
    omega
  · exact Prod.Lex.left _ _ hlt

theorem acceptsNull_iff (hg : s.Guarded) (t : Ty Authored) :
    s.acceptsNull t = true ↔ s.Admits .null t :=
  acceptsNullAmong_iff hg s.aliasNames t (s.ready_aliasNames t)

end Schema

/-! ## Runs that succeed -/

namespace Checked

variable {α β : Type}

/-- A run gives a value. -/
def Succeeds (x : Checked α) : Prop := ∃ p, x.result = .ok p

theorem succeeds_pure (a : α) : (Pure.pure a : Checked α).Succeeds := ⟨_, rfl⟩

theorem succeeds_note (n : Notes) : (note n).Succeeds := ⟨_, rfl⟩

theorem Succeeds.settles {x : Checked α} (h : x.Succeeds) : x.Settles := .inl h

theorem not_succeeds_fail (e : Fault) : ¬ (fail e : Checked α).Succeeds := by
  rintro ⟨p, h⟩
  cases h

/-- A sequence of runs of which the second always succeeds. -/
theorem succeeds_bind_iff {x : Checked α} {f : α → Checked β} (hf : ∀ a, (f a).Succeeds) :
    (x >>= f).Succeeds ↔ x.Succeeds := by
  constructor
  · rintro ⟨⟨b, n⟩, h⟩
    obtain ⟨a, m, k, hx, -⟩ := ok_bind.1 h
    exact ⟨_, hx⟩
  · rintro ⟨⟨a, m⟩, hx⟩
    obtain ⟨⟨b, k⟩, hb⟩ := hf a
    exact ⟨(b, m ++ k), ok_bind.2 ⟨a, m, k, hx, hb, rfl⟩⟩

theorem Succeeds.bind {x : Checked α} {f : α → Checked β} (hx : x.Succeeds)
    (hf : ∀ a, (f a).Succeeds) : (x >>= f).Succeeds := (succeeds_bind_iff hf).2 hx

theorem succeeds_map_iff {x : Checked α} (f : α → β) : (f <$> x).Succeeds ↔ x.Succeeds :=
  succeeds_bind_iff fun a => succeeds_pure (f a)

theorem succeeds_mapM_iff {f : α → Checked β} {xs : List α} :
    (xs.mapM f).Succeeds ↔ ∀ x ∈ xs, (f x).Succeeds := by
  induction xs with
  | nil => exact iff_of_true (succeeds_pure []) (by simp)
  | cons x xs ih =>
    rw [List.mapM_cons, List.forall_mem_cons, ← ih]
    constructor
    · rintro ⟨⟨b, n⟩, h⟩
      obtain ⟨a, m, k, hx, hrest, -⟩ := ok_bind.1 h
      obtain ⟨ys, m', k', hys, -⟩ := ok_bind.1 hrest
      exact ⟨⟨_, hx⟩, ⟨_, hys⟩⟩
    · rintro ⟨hx, hxs⟩
      exact hx.bind fun y => hxs.bind fun ys => succeeds_pure (y :: ys)

theorem succeeds_forM {f : α → Checked Unit} (h : ∀ x, (f x).Succeeds) :
    ∀ xs : List α, (xs.forM f).Succeeds := by
  intro xs
  induction xs with
  | nil => exact succeeds_pure ()
  | cons x xs ih => exact (h x).bind fun _ => ih

end Checked

open Checked

theorem succeeds_evaluate (v : Value) (cs : List Constraint) (eval : Evaluator) :
    (evaluateConstraints v cs eval .quiet).Succeeds := by
  refine succeeds_forM (fun c => ?_) cs
  unfold Constraint.evaluate
  split
  · exact succeeds_note _
  · exact Succeeds.bind ⟨_, rfl⟩ fun _ => succeeds_note _

namespace Coercer

/-- The first run that fits is one of the runs, if all of them give a value or a misfit. -/
theorem succeeds_firstFit_iff {whenEmpty : Checked Value} (hempty : ¬ whenEmpty.Succeeds)
    {runs : List (Unit → Checked Value)} (h : ∀ run ∈ runs, (run ()).Settles)
    (last : Option Fault) :
    (firstFit last whenEmpty runs).Succeeds ↔ ∃ run ∈ runs, (run ()).Succeeds := by
  induction runs generalizing last with
  | nil =>
    refine iff_of_false ?_ (by simp)
    cases last with
    | none => exact hempty
    | some e => exact not_succeeds_fail e
  | cons run runs ih =>
    rw [firstFit, List.exists_mem_cons_iff]
    rcases h run List.mem_cons_self with ⟨p, hp⟩ | ⟨m, hm⟩
    · simp only [hp]
      exact iff_of_true ⟨p, hp⟩ (.inl ⟨p, hp⟩)
    · simp only [hm]
      show (firstFit _ whenEmpty runs).Succeeds ↔ _
      rw [ih fun r hr => h r (List.mem_cons_of_mem _ hr)]
      refine ⟨.inr, fun hsome => hsome.resolve_left ?_⟩
      rintro ⟨p, hp⟩
      rw [hm] at hp
      cases hp

theorem succeeds_keepOrDrop (key : String) {x : Checked Value} (hx : x.Settles) :
    (keepOrDrop .quiet key x).Succeeds := by
  unfold keepOrDrop
  rcases hx with ⟨⟨v, n⟩, hx⟩ | ⟨e, hx⟩
  · simp only [hx]
    exact ⟨_, rfl⟩
  · simp only [hx]
    exact ⟨_, rfl⟩

theorem succeeds_coercePrim_iff {p : Prim} {t : Ty Authored} {v : Value} {path : Path} :
    (coercePrim p t v path).Succeeds ↔ p.takes v = true := by
  unfold coercePrim
  split
  case h_4 => exact iff_of_true ((succeeds_note _).bind fun _ => succeeds_pure _) rfl
  case h_7 kind m =>
    show (if m.kind = kind then _ else _ : Checked Value).Succeeds ↔ decide (m.kind = kind) = true
    split
    · next hk => exact iff_of_true (succeeds_pure _) (decide_eq_true hk)
    · next hk => exact iff_of_false (not_succeeds_fail _) (by simp [hk])
  case h_8 =>
    refine iff_of_false (not_succeeds_fail _) fun h => ?_
    unfold Prim.takes at h
    split at h <;> simp_all
  all_goals exact iff_of_true (succeeds_pure _) rfl

theorem succeeds_coerceEnum_iff {c : Coercer} {name : String} {e : EnumDef}
    (he : c.schema.findEnum? name = some e) {t : Ty Authored} {v : Value} {path : Path} :
    (c.coerceEnum name t v path).Succeeds ↔
      ∃ key, v.variantName? = some key ∧ (e.findValue? key).isSome = true := by
  unfold coerceEnum
  rw [he]
  cases hkey : v.variantName? with
  | none => exact iff_of_false (not_succeeds_fail _) (by simp)
  | some key =>
    cases hx : e.findValue? key with
    | none =>
      simp only [hx]
      exact iff_of_false (not_succeeds_fail _) (by simp [hx])
    | some x =>
      simp only [hx]
      refine iff_of_true ?_ ⟨key, rfl, by rw [hx]; rfl⟩
      split
      · exact (succeeds_note _).bind fun _ => succeeds_pure _
      · exact succeeds_pure _

/-! ## Coercion -/

section

variable {s : Schema} {eval : Evaluator}

/-- A null is refused where a type that does not accept it is asked for. -/
theorem not_admits_of_isNull (hg : s.Guarded) {v : Value} {t : Ty Authored}
    (h : (v.isNull && !s.acceptsNull t) = true) : ¬ s.Admits v t := by
  rw [Bool.and_eq_true, Bool.not_eq_true'] at h
  obtain ⟨hv, hnull⟩ := h
  cases v with
  | null =>
    rw [← Schema.acceptsNull_iff hg, hnull]
    exact Bool.false_ne_true
  | _ => cases hv

/-- What a union does with the answer of a member. -/
theorem succeeds_chosen (several : Prop) [Decidable several] (f : Flag) (out : Value) :
    (do
      if several then .flag f
      return out : Checked Value).Succeeds := by
  dsimp only
  split
  · exact (succeeds_note _).bind fun _ => succeeds_pure _
  · exact succeeds_pure _

theorem forall_mem_attach_zipIdx {α : Type} {P : α → Prop} {xs : List α} :
    (∀ p ∈ xs.attach.zipIdx, P p.1.val) ↔ ∀ x ∈ xs, P x := by
  conv => rhs; rw [← map_val_attach_zipIdx xs]
  rw [List.forall_mem_map]

theorem forall_mem_zip_zipIdx {α β : Type} {P : α → β → Prop} {xs : List α} {ys : List β} :
    (∀ p ∈ (xs.attach.zip ys).zipIdx, P p.1.1.val p.1.2) ↔ ∀ p ∈ xs.zip ys, P p.1 p.2 := by
  have hmap : (xs.attach.zip ys).zipIdx.map (fun p => (p.1.1.val, p.1.2)) = xs.zip ys := by
    have hzip := List.zipIdx_map_fst 0 (xs.attach.zip ys)
    conv => rhs; rw [← List.attach_map_subtype_val xs, List.zip_map_left, ← hzip, List.map_map]
    rfl
  rw [← hmap, List.forall_mem_map]

/-- A class succeeds where its fields do. -/
theorem succeeds_classRef_iff (hg : s.Guarded) {pending : List String} {v : Value} {path : Path}
    {name : String} {mode : Mode} {dyn : Bool} {a : Authored} {d : ClassDef}
    (hd : s.findClass? name mode = some d)
    (ih : ∀ f ∈ d.fields, ∀ es, v.entries? = some es → ∀ key x, (key, x) ∈ es → ∀ here,
      (coerce ⟨s, eval, .quiet⟩ s.aliasNames x f.type here).Succeeds ↔ s.Admits x f.type) :
    (coerceForm ⟨s, eval, .quiet⟩ pending v (.classRef name mode dyn a) path).Succeeds ↔
      s.Admits v (.classRef name mode dyn a) := by
  rw [coerceForm]
  simp only [hd]
  split
  · next hes =>
    refine iff_of_false (not_succeeds_fail _) fun h => ?_
    cases h with
    | classRef _ hes' => rw [hes] at hes'; cases hes'
  · next es hes =>
    rw [Schema.admits_classRef_iff hd hes, succeeds_bind_iff fun fs =>
      (succeeds_evaluate _ _ eval).bind fun _ => succeeds_pure _, succeeds_mapM_iff]
    refine forall₂_congr fun f hf => ?_
    split
    · next hnone =>
      rw [hnone]
      show _ ↔ s.Admits .null f.type
      rw [← Schema.acceptsNull_iff hg]
      split
      · next hnull => exact iff_of_true ((succeeds_note _).bind fun _ => succeeds_pure _) hnull
      · next hnull => exact iff_of_false (not_succeeds_fail _) hnull
    · next found hfound =>
      rw [hfound]
      show _ ↔ s.Admits found f.type
      obtain ⟨key, hkey⟩ := Name.mem_of_lookup? hfound
      split
      · next hnull => exact iff_of_false (not_succeeds_fail _) (not_admits_of_isNull hg hnull)
      · rw [succeeds_bind_iff fun _ => succeeds_pure _]
        exact ih f hf es hes key found hkey _

/-- A union succeeds where one of its members does. -/
theorem succeeds_union_iff {pending : List String} {v : Value} {path : Path}
    {ms : List (Ty Authored)} {null : Option Authored} {a : Authored}
    (settled : ∀ m ∈ ms, (coerce ⟨s, eval, .quiet⟩ pending v m path).Settles)
    (ih : ∀ m ∈ ms, (coerce ⟨s, eval, .quiet⟩ pending v m path).Succeeds ↔ s.Admits v m) :
    (coerceForm ⟨s, eval, .quiet⟩ pending v (.union ms null a) path).Succeeds ↔
      s.Admits v (.union ms null a) := by
  rw [coerceForm, Schema.admits_union_iff]
  split
  · next hnull => exact iff_of_true (succeeds_pure v) (.inl hnull)
  · next hnull =>
    rw [or_iff_right hnull]
    refine (succeeds_firstFit_iff (not_succeeds_fail _) (fun run hrun => ?_) none).trans ⟨?_, ?_⟩
    · obtain ⟨m, -, rfl⟩ := List.mem_map.1 hrun
      exact (settled m.1.val m.1.property).bind fun out => (succeeds_chosen _ _ out).settles
    · rintro ⟨run, hrun, h⟩
      obtain ⟨m, -, rfl⟩ := List.mem_map.1 hrun
      have hcoerce := (succeeds_bind_iff (succeeds_chosen _ _)).1 h
      exact ⟨m.1.val, m.1.property, (ih m.1.val m.1.property).1 hcoerce⟩
    · rintro ⟨m, hm, h⟩
      rw [← map_val_attach_zipIdx ms] at hm
      obtain ⟨m, hmem, rfl⟩ := List.mem_map.1 hm
      refine ⟨_, List.mem_map_of_mem hmem, (succeeds_bind_iff (succeeds_chosen _ _)).2 ?_⟩
      exact (ih m.1.val m.1.property).2 h

mutual

theorem succeeds_coerce_iff (hc : s.Closed) (hg : s.Guarded) (pending : List String) (v : Value)
    (t : Ty Authored) (path : Path) (hk : s.Knows t) (hr : s.Ready pending t) :
    (coerce ⟨s, eval, .quiet⟩ pending v t path).Succeeds ↔ s.Admits v t := by
  rw [coerce, succeeds_bind_iff fun out =>
    (succeeds_evaluate _ _ eval).bind fun _ => succeeds_pure _]
  exact succeeds_coerceForm_iff hc hg pending v t path hk hr
termination_by (sizeOf v, pending.length, sizeOf t, 1)

theorem succeeds_coerceForm_iff (hc : s.Closed) (hg : s.Guarded) (pending : List String) (v : Value)
    (t : Ty Authored) (path : Path) (hk : s.Knows t) (hr : s.Ready pending t) :
    (coerceForm ⟨s, eval, .quiet⟩ pending v t path).Succeeds ↔ s.Admits v t := by
  have hroot : s.Resolves t := hk t t.mem_nodes
  match t with
  | .top a =>
    rw [coerceForm]
    exact iff_of_true (succeeds_pure v) .top
  | .prim p a =>
    rw [coerceForm, succeeds_coercePrim_iff]
    exact ⟨.prim, fun | .prim h => h⟩
  | .literal l a =>
    rw [coerceForm]
    split
    · next h => exact iff_of_true (succeeds_pure v) (.literal h)
    · next h => exact iff_of_false (not_succeeds_fail _) fun | .literal h' => h h'
  | .enumRef name d a =>
    obtain ⟨e, he⟩ := Option.isSome_iff_exists.1 hroot
    rw [coerceForm, succeeds_coerceEnum_iff (c := ⟨s, eval, .quiet⟩) he]
    refine ⟨fun ⟨key, hv, hx⟩ => .enumRef he hv hx, fun h => ?_⟩
    cases h with
    | enumRef he' hv hx =>
      obtain rfl := Option.some.inj (he.symm.trans he')
      exact ⟨_, hv, hx⟩
  | .classRef name mode dyn a =>
    obtain ⟨d, hd⟩ := Option.isSome_iff_exists.1 hroot
    refine succeeds_classRef_iff hg hd fun f hf es hes key x hx here => ?_
    have hlt := Value.sizeOf_entry hes hx
    exact succeeds_coerce_iff hc hg _ x f.type here (hc.fields _ _ _ hd f hf)
      (s.ready_aliasNames _)
  | .list item a =>
    rw [coerceForm]
    split
    · next hitems =>
      refine iff_of_false (not_succeeds_fail _) fun h => ?_
      cases h with
      | list hitems' => rw [hitems] at hitems'; cases hitems'
    · next items hitems =>
      rw [succeeds_map_iff, succeeds_mapM_iff, Schema.admits_list_iff hitems]
      refine Iff.trans (forall₂_congr fun p _ => ?_) forall_mem_attach_zipIdx
      have hlt := Value.sizeOf_item hitems p.1.property
      exact succeeds_coerce_iff hc hg _ p.1.val item _ hk.list (s.ready_aliasNames _)
  | .map key value a =>
    rw [coerceForm]
    split
    · next hes =>
      refine iff_of_false (not_succeeds_fail _) fun h => ?_
      cases h with
      | map hes' => rw [hes] at hes'; cases hes'
    · next es hes =>
      refine iff_of_true (Succeeds.bind (succeeds_mapM_iff.2 fun p _ => ?_) fun _ =>
        succeeds_pure _) (.map hes)
      exact succeeds_keepOrDrop _ (coerce_settles hc hg _ p.val.2 value _ hk.value
        (s.ready_aliasNames _))
  | .tuple types a =>
    rw [coerceForm]
    split
    · next hitems =>
      refine iff_of_false (not_succeeds_fail _) fun h => ?_
      cases h with
      | tuple hitems' => rw [hitems] at hitems'; cases hitems'
    · next items hitems =>
      rw [Schema.admits_tuple_iff hitems]
      split
      · next hlen =>
        rw [succeeds_map_iff, succeeds_mapM_iff, and_iff_right hlen]
        refine Iff.trans (forall₂_congr fun p hp => ?_) forall_mem_zip_zipIdx
        have hlt := Value.sizeOf_item hitems p.1.1.property
        have hmem : p.1.2 ∈ types := (List.of_mem_zip (List.fst_mem_of_mem_zipIdx hp)).2
        exact succeeds_coerce_iff hc hg _ p.1.1.val p.1.2 _ (hk.item hmem) (s.ready_aliasNames _)
      · next hlen => exact iff_of_false (not_succeeds_fail _) fun h => hlen h.1
  | .aliasRef name mode a =>
    obtain ⟨e, he⟩ := Option.isSome_iff_exists.1 hroot
    have hmem : name ∈ pending := hr.mem hroot
    have hlt := length_erase_lt hmem
    rw [coerceForm]
    simp only [he, dif_pos hmem]
    rw [Schema.admits_aliasRef_iff he]
    exact succeeds_coerce_iff hc hg _ v e path (hc.expansions name e he) (hr.expand hg he)
  | .arrow ps r a =>
    rw [coerceForm]
    exact iff_of_false (not_succeeds_fail _) nofun
  | .union ms null a =>
    refine succeeds_union_iff (fun m hm => coerce_settles hc hg pending v m path (hk.member hm)
      (hr.member hm)) fun m hm => ?_
    have hlt := List.sizeOf_lt_of_mem hm
    exact succeeds_coerce_iff hc hg pending v m path (hk.member hm) (hr.member hm)
termination_by (sizeOf v, pending.length, sizeOf t, 0)
decreasing_by
  · exact Prod.Lex.left _ _ hlt
  · exact Prod.Lex.left _ _ hlt
  · exact Prod.Lex.left _ _ hlt
  · exact Prod.Lex.right _ (Prod.Lex.left _ _ hlt)
  · apply Prod.Lex.right
    apply Prod.Lex.right
    apply Prod.Lex.left
    simp only [Ty.union.sizeOf_spec]
    omega

end

/-- Coercion takes exactly the values that the type admits. -/
theorem succeeds_run_iff (hc : s.Closed) (hg : s.Guarded) {t : Ty Authored} (hk : s.Knows t)
    (v : Value) (path : Path) : (run ⟨s, eval, .quiet⟩ v t path).Succeeds ↔ s.Admits v t :=
  succeeds_coerce_iff hc hg s.aliasNames v t path hk (s.ready_aliasNames t)

end

end Coercer

end ShapeSchema
