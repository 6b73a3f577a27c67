import ShapeSchema.Proofs.Convert.Trails

/-!
# Fields that are left out

A field that accepts null may be left out of an object or sent as null. Both give the same value
(`Coercer.run_omitted`), but only a null that is sent is judged by the constraints of the field's
type: of a field that is left out nothing is recorded. So the two ways agree where null passes all
the constraints it meets and none of these is a check.
-/

namespace ShapeSchema

/-! ## The constraints that null meets -/

namespace Schema

/-- A constraint is evaluated when null is coerced to a type: it belongs to the root, to the
expansion of an alias, or to the first member that accepts null of a union without a null of its
own. -/
inductive NullMeets (s : Schema) : Ty Authored → Constraint → Prop where
  | own {t : Ty Authored} {c : Constraint} : c ∈ t.ann.constraints → NullMeets s t c
  | aliasRef {name : String} {mode : Mode} {a : Authored} {e : Ty Authored} {c : Constraint} :
      s.expand? name = some e → NullMeets s e c → NullMeets s (.aliasRef name mode a) c
  | member {ms : List (Ty Authored)} {a : Authored} {m : Ty Authored} {c : Constraint} :
      ms.find? s.acceptsNull = some m → NullMeets s m c → NullMeets s (.union ms none a) c

/-- Nothing is recorded of the constraints that null meets: they are asserts that pass. -/
def NullSilent (s : Schema) (eval : Evaluator) (t : Ty Authored) : Prop :=
  ∀ c, s.NullMeets t c → c.level = .assert ∧ eval c.expression Value.null.plain = .ok true

section
variable {s : Schema} {eval : Evaluator} {t u : Ty Authored}

theorem nullSilent_of_own (h : ∀ c, s.NullMeets t c → c ∈ t.ann.constraints) :
    (True ∧ ∀ c ∈ t.ann.constraints,
      c.level = .assert ∧ eval c.expression Value.null.plain = .ok true) ↔ s.NullSilent eval t :=
  ⟨fun hown c hc => hown.2 c (h c hc), fun hall => ⟨trivial, fun c hc => hall c (.own hc)⟩⟩

theorem nullSilent_of_inner (h : ∀ c, s.NullMeets t c → c ∈ t.ann.constraints ∨ s.NullMeets u c)
    (hu : ∀ c, s.NullMeets u c → s.NullMeets t c) :
    (s.NullSilent eval u ∧ ∀ c ∈ t.ann.constraints,
      c.level = .assert ∧ eval c.expression Value.null.plain = .ok true) ↔ s.NullSilent eval t := by
  constructor
  · rintro ⟨hinner, hown⟩ c hc
    exact (h c hc).elim (hown c) (hinner c)
  · intro hall
    exact ⟨fun c hc => hall c (hu c hc), fun c hc => hall c (.own hc)⟩

end

end Schema

namespace Coercer

open Checked

section

variable {s : Schema} {eval : Evaluator} {path : Path}

/-- What coercion of null to a type records comes from its form and from its own constraints. -/
theorem trails_null_of_form {pending : List String} {t : Ty Authored} {q : Prop}
    (h : Trails q (Pure.pure .null) (coerceForm ⟨s, eval, .quiet⟩ pending .null t path)) :
    Trails (q ∧ ∀ c ∈ t.ann.constraints,
        c.level = .assert ∧ eval c.expression Value.null.plain = .ok true)
      (Pure.pure .null) (coerce ⟨s, eval, .quiet⟩ pending .null t path) := by
  have hroot := h.bind (f := fun out => Pure.pure () >>= fun _ => Pure.pure out)
    (g := fun out => evaluateConstraints out t.ann.constraints eval .quiet >>= fun _ =>
      Pure.pure out) fun out n hout => by
    obtain ⟨rfl, -⟩ := ok_pure.1 hout
    exact (trails_evaluate .null t.ann.constraints).andThen _
  rw [coerce]
  simpa only [pure_bind] using hroot

/-- What a union adds to the answer of a member counts for nothing. -/
theorem trails_chosen (several : Bool) (f : Flag) (out : Value) :
    Trails True (Pure.pure out) (do
      if several then .flag f
      return out : Checked Value) := by
  cases several with
  | true => exact trails_pure rfl (iff_true_intro ⟨rfl, rfl⟩)
  | false => exact .refl _

theorem trails_null (hc : s.Closed) (hg : s.Guarded) (pending : List String) (t : Ty Authored)
    (path : Path) (hk : s.Knows t) (hr : s.Ready pending t) (h : s.Admits .null t) :
    Trails (s.NullSilent eval t) (Pure.pure .null)
      (coerce ⟨s, eval, .quiet⟩ pending .null t path) := by
  match t with
  | .top a =>
    refine (trails_null_of_form (q := True) ?_).congr
      (Schema.nullSilent_of_own fun | _, .own h => h)
    rw [coerceForm]
    exact .refl _
  | .prim p a =>
    refine (trails_null_of_form (q := True) ?_).congr
      (Schema.nullSilent_of_own fun | _, .own h => h)
    cases h with
    | prim h =>
      cases p with
      | null =>
        rw [coerceForm]
        exact .refl _
      | _ => cases h
  | .aliasRef name mode a =>
    cases h with
    | @aliasRef _ _ _ _ e he h =>
    have hmem : name ∈ pending := hr.mem (by rw [he]; rfl)
    have hlt := length_erase_lt hmem
    refine (trails_null_of_form (q := s.NullSilent eval e) ?_).congr
      (Schema.nullSilent_of_inner (fun c hmeets => ?_) fun c => .aliasRef he)
    · rw [coerceForm_aliasRef (c := ⟨s, eval, .quiet⟩) he hmem]
      exact trails_null hc hg (pending.erase name) e path (hc.expansions name e he)
        (hr.expand hg he) h
    · cases hmeets with
      | own h => exact .inl h
      | aliasRef he' h =>
        obtain rfl := Option.some.inj (he.symm.trans he')
        exact .inr h
  | .union ms (some n) a =>
    refine (trails_null_of_form (q := True) ?_).congr
      (Schema.nullSilent_of_own fun | _, .own h => h)
    rw [coerceForm]
    exact .refl _
  | .union ms none a =>
    obtain ⟨u, hu, hadmits⟩ := (Schema.admits_union_iff.1 h).resolve_left Bool.false_ne_true
    obtain ⟨m, hfind⟩ := Option.isSome_iff_exists.1 (List.find?_isSome.2
      ⟨u, hu, (Schema.acceptsNull_iff hg u).2 hadmits⟩)
    have hm := List.mem_of_find?_eq_some hfind
    have hlt := List.sizeOf_lt_of_mem hm
    have hnull : s.Admits .null m := (Schema.acceptsNull_iff hg m).1 (List.find?_some hfind)
    refine (trails_null_of_form (q := s.NullSilent eval m) ?_).congr
      (Schema.nullSilent_of_inner (fun c hmeets => ?_) fun c => .member hfind)
    · have hmember := trails_null hc hg pending m path (hk.member hm) (hr.member hm) hnull
      obtain ⟨-, before, after, rfl, hbefore⟩ := List.find?_eq_some_iff_append.1 hfind
      have hpassed : ∀ x ∈ before, ¬ s.Admits .null x := fun x hx hyes => by
        have hno := hbefore x hx
        rw [(Schema.acceptsNull_iff hg x).2 hyes] at hno
        cases hno
      refine Trails.of_result ?_ rfl (result_union hc hg hk hr rfl hpassed hnull path)
      exact (hmember.bind fun out _ _ => trails_chosen _ _ out).congr (iff_of_eq (and_true _))
    · cases hmeets with
      | own h => exact .inl h
      | member hfind' h =>
        obtain rfl := Option.some.inj (hfind.symm.trans hfind')
        exact .inr h
  | .literal l a => cases h with | literal h => cases l <;> cases h
  | .enumRef n d a => cases h with | enumRef _ h _ => cases h
  | .classRef n m d a => cases h with | classRef _ h _ => cases h
  | .list i a => cases h with | list h _ => cases h
  | .map k w a => cases h with | map h => cases h
  | .tuple is a => cases h with | tuple h _ _ => cases h
  | .arrow ps r a => cases h
termination_by (pending.length, sizeOf t)
decreasing_by
  · exact Prod.Lex.left _ _ hlt
  · apply Prod.Lex.right
    simp only [Ty.union.sizeOf_spec]
    omega

/-! ## Leaving out and sending null -/

end

end Coercer

/-- Two inputs for a type, either of which may be missing, differ only in fields that the one leaves
out and the other sends as null; `sent` holds of the types of these fields. Of a union both inputs
come to the same member, and entries of a map that are dropped do not count. -/
inductive Schema.Omits (s : Schema) :
    Option Value → Option Value → Ty Authored → (Ty Authored → Prop) → Prop where
  | same {o : Option Value} {t : Ty Authored} : Omits s o o t fun _ => False
  | null {t : Ty Authored} : Omits s none (some .null) t fun u => u = t
  | classRef {v w : Value} {name : String} {mode : Mode} {dyn : Bool} {a : Authored} {d : ClassDef}
      {vs ws : List (String × Value)} {sent : FieldDef → Ty Authored → Prop} :
      s.findClass? name mode = some d → v.entries? = some vs → w.entries? = some ws →
      (∀ f ∈ d.fields, Omits s (f.name.lookup? vs) (f.name.lookup? ws) f.type (sent f)) →
      Omits s (some v) (some w) (.classRef name mode dyn a) fun u => ∃ f ∈ d.fields, sent f u
  | list {v w : Value} {item : Ty Authored} {a : Authored} {ps : List (Value × Value)}
      {sent : Value × Value → Ty Authored → Prop} :
      v.items? = some (ps.map Prod.fst) → w.items? = some (ps.map Prod.snd) →
      (∀ p ∈ ps, Omits s (some p.1) (some p.2) item (sent p)) →
      Omits s (some v) (some w) (.list item a) fun u => ∃ p ∈ ps, sent p u
  | map {v w : Value} {key value : Ty Authored} {a : Authored}
      {ps : List (String × Value × Value)} {sent : String × Value × Value → Ty Authored → Prop} :
      v.entries? = some (ps.map fun p => (p.1, p.2.1)) →
      w.entries? = some (ps.map fun p => (p.1, p.2.2)) →
      (∀ p ∈ ps, Omits s (some p.2.1) (some p.2.2) value (sent p)) →
      Omits s (some v) (some w) (.map key value a)
        fun u => ∃ p ∈ ps, s.Admits p.2.1 value ∧ sent p u
  | tuple {v w : Value} {types : List (Ty Authored)} {a : Authored} {ps : List (Value × Value)}
      {sent : (Value × Value) × Ty Authored → Ty Authored → Prop} :
      v.items? = some (ps.map Prod.fst) → w.items? = some (ps.map Prod.snd) →
      (∀ p ∈ ps.zip types, Omits s (some p.1.1) (some p.1.2) p.2 (sent p)) →
      Omits s (some v) (some w) (.tuple types a) fun u => ∃ p ∈ ps.zip types, sent p u
  | aliasRef {v w : Value} {name : String} {mode : Mode} {a : Authored} {e : Ty Authored}
      {sent : Ty Authored → Prop} :
      s.expand? name = some e → Omits s (some v) (some w) e sent →
      Omits s (some v) (some w) (.aliasRef name mode a) sent
  | union {v w : Value} {before after : List (Ty Authored)} {m : Ty Authored}
      {null : Option Authored} {a : Authored} {sent : Ty Authored → Prop} :
      v.isNull = false → w.isNull = false → (∀ u ∈ before, ¬ s.Admits v u ∧ ¬ s.Admits w u) →
      s.Admits v m → Omits s (some v) (some w) m sent →
      Omits s (some v) (some w) (.union (before ++ m :: after) null a) sent

namespace Schema

variable {s : Schema} {o o' : Option Value} {t : Ty Authored} {sent : Ty Authored → Prop}

/-- A missing field counts as a null, so leaving out and sending null are admitted alike. -/
theorem Omits.admits_iff (h : s.Omits o o' t sent) :
    s.Admits (o.getD .null) t ↔ s.Admits (o'.getD .null) t := by
  induction h with
  | same => exact Iff.rfl
  | null => exact Iff.rfl
  | classRef hd hv hw _ ih =>
    rw [Option.getD_some, Option.getD_some, admits_classRef_iff hd hv, admits_classRef_iff hd hw]
    exact forall₂_congr ih
  | list hv hw _ ih =>
    rw [Option.getD_some, Option.getD_some, admits_list_iff hv, admits_list_iff hw,
      List.forall_mem_map, List.forall_mem_map]
    exact forall₂_congr ih
  | map hv hw _ _ => exact iff_of_true (.map hv) (.map hw)
  | @tuple v w types a ps _ hv hw _ ih =>
    rw [Option.getD_some, Option.getD_some, admits_tuple_iff hv, admits_tuple_iff hw,
      List.length_map, List.length_map, List.zip_map_left, List.zip_map_left, List.forall_mem_map,
      List.forall_mem_map]
    exact and_congr_right fun _ => forall₂_congr ih
  | aliasRef he _ ih =>
    rw [Option.getD_some, Option.getD_some, admits_aliasRef_iff he, admits_aliasRef_iff he]
    exact ih
  | @union v w before after m _ _ _ _ _ _ hm _ ih =>
    have hmem : m ∈ before ++ m :: after := List.mem_append_right _ List.mem_cons_self
    exact iff_of_true (.unionMember hmem hm) (.unionMember hmem (ih.1 hm))

/-- Where a new entry is null, a field is found as before, or it was missing and is null now. Only
the real name of a field that was found under its shown name would be in the way. -/
theorem lookup?_insert_null {n : Name} {es : List (String × Value)} {key : String}
    (hkey : key ∉ Entries.keys es) (hreal : n.real = key → n.lookup? es = none) :
    n.lookup? (Entries.insert es key .null) = n.lookup? es ∨
      n.lookup? es = none ∧ n.lookup? (Entries.insert es key .null) = some .null := by
  by_cases hn : n.real = key
  · refine .inr ⟨hreal hn, ?_⟩
    unfold Name.lookup?
    rw [Entries.find?_insert, if_pos (beq_iff_eq.2 hn.symm)]
    rfl
  · have hfind : Entries.find? (Entries.insert es key .null) n.real = Entries.find? es n.real := by
      rw [Entries.find?_insert, if_neg fun h => hn (beq_iff_eq.1 h).symm]
    unfold Name.lookup?
    rw [hfind]
    cases Entries.find? es n.real with
    | some x => exact .inl rfl
    | none =>
      cases n.shown with
      | none => exact .inl rfl
      | some shown =>
        show Entries.find? _ shown = Entries.find? es shown ∨ Entries.find? es shown = none ∧
          Entries.find? _ shown = some Value.null
        rw [Entries.find?_insert]
        split
        · next h =>
          rw [← beq_iff_eq.1 h]
          exact .inr ⟨Entries.find?_eq_none.2 hkey, rfl⟩
        · exact .inl rfl

/-- To set a missing field of a class to null is to send what was left out. -/
theorem omits_insert {v w : Value} {name key : String} {mode : Mode} {dyn : Bool} {a : Authored}
    {d : ClassDef} {es : List (String × Value)} (hd : s.findClass? name mode = some d)
    (hv : v.entries? = some es) (hw : w.entries? = some (Entries.insert es key .null))
    (hkey : key ∉ Entries.keys es)
    (hreal : ∀ f ∈ d.fields, f.name.real = key → f.name.lookup? es = none) :
    s.Omits (some v) (some w) (.classRef name mode dyn a) fun u => ∃ f ∈ d.fields,
      (f.name.lookup? es = none ∧ f.name.lookup? (Entries.insert es key .null) = some .null) ∧
        u = f.type := by
  refine .classRef hd hv hw fun f hf => ?_
  by_cases hsent : f.name.lookup? es = none ∧
      f.name.lookup? (Entries.insert es key .null) = some .null
  · have hset : (fun u => (f.name.lookup? es = none ∧
        f.name.lookup? (Entries.insert es key .null) = some .null) ∧ u = f.type) =
          fun u => u = f.type := funext fun u => propext (and_iff_right hsent)
    rw [hset, hsent.1, hsent.2]
    exact .null
  · have hset : (fun u => (f.name.lookup? es = none ∧
        f.name.lookup? (Entries.insert es key .null) = some .null) ∧ u = f.type) =
          fun _ => False := funext fun u => propext (iff_of_false (fun h => hsent h.1) id)
    rw [hset, (lookup?_insert_null hkey (hreal f hf)).resolve_right hsent]
    exact .same

end Schema

namespace Coercer

open Checked

section

variable {s : Schema} {eval : Evaluator}

theorem forall_sent_iff {α : Type} {xs : List α} {sent : α → Ty Authored → Prop}
    {P : Ty Authored → Prop} :
    (∀ x ∈ xs, ∀ u, sent x u → P u) ↔ ∀ u, (∃ x ∈ xs, sent x u) → P u :=
  ⟨fun h u ⟨x, hx, hu⟩ => h x hx u hu, fun h x hx u hu => h u ⟨x, hx, hu⟩⟩

theorem forall_zipIdx_sent_iff {α : Type} {xs : List α} {sent : α → Ty Authored → Prop}
    {P : Ty Authored → Prop} :
    (∀ p ∈ xs.zipIdx, ∀ u, sent p.1 u → P u) ↔ ∀ u, (∃ x ∈ xs, sent x u) → P u :=
  Iff.trans (forall_mem_zipIdx (P := fun x => ∀ u, sent x u → P u)) forall_sent_iff

/-- Both answers are judged by the same constraints, so only the forms matter. -/
theorem trails_of_form {c : Coercer} {q : Prop} {pending : List String} {v w : Value}
    {t : Ty Authored} {path : Path}
    (h : Trails q (c.coerceForm pending v t path) (c.coerceForm pending w t path)) :
    Trails q (c.coerce pending v t path) (c.coerce pending w t path) := by
  rw [coerce, coerce]
  exact h.andThen _

/-- A field that is left out, against one that is sent. -/
theorem trails_field (hc : s.Closed) (hg : s.Guarded) {f : FieldDef} (hk : s.Knows f.type)
    {vs ws : List (String × Value)} {sent : Ty Authored → Prop} {path : Path}
    (h : s.Omits (f.name.lookup? vs) (f.name.lookup? ws) f.type sent)
    (ih : ∀ {x y}, f.name.lookup? vs = some x → f.name.lookup? ws = some y → ∀ here,
      Trails (∀ u, sent u → s.NullSilent eval u)
        (coerce ⟨s, eval, .quiet⟩ s.aliasNames x f.type here)
        (coerce ⟨s, eval, .quiet⟩ s.aliasNames y f.type here)) :
    Trails (∀ u, sent u → s.NullSilent eval u) (coerceField ⟨s, eval, .quiet⟩ vs path f)
      (coerceField ⟨s, eval, .quiet⟩ ws path f) := by
  unfold coerceField
  cases hx : f.name.lookup? vs with
  | none =>
    rw [hx] at h
    cases hy : f.name.lookup? ws with
    | none =>
      rw [hy] at h
      cases h
      exact (Trails.refl _).congr (iff_of_true trivial nofun)
    | some y =>
      rw [hy] at h
      cases h
      dsimp only
      cases hnull : s.acceptsNull f.type with
      | false => exact fun a n hn => nomatch hn
      | true =>
        have hsent : Trails (s.NullSilent eval f.type) (Pure.pure .null)
            (coerce ⟨s, eval, .quiet⟩ s.aliasNames .null f.type (path.field f.name.real)) :=
          trails_null hc hg s.aliasNames f.type _ hk (s.ready_aliasNames f.type)
            ((Schema.acceptsNull_iff hg _).1 hnull)
        have hfield := hsent.andThen fun out => Pure.pure (f.name.real, out)
        rw [pure_bind] at hfield
        exact (hfield.of_flag _).congr (by simp)
  | some x =>
    cases hy : f.name.lookup? ws with
    | none =>
      rw [hx, hy] at h
      cases h
    | some y =>
      dsimp only
      split
      · exact fun a n hn => nomatch hn
      · have hfound := (ih hx hy (path.field f.name.real)).andThen fun out =>
          Pure.pure (f.name.real, out)
        split
        · next hnull =>
          -- a null that is refused beforehand is not admitted, so neither is what it stands for
          intro a n hn
          obtain ⟨m, hm, -⟩ := hfound a n hn
          obtain ⟨out, k, l, hout, -⟩ := Checked.ok_bind.1 hm
          have hadmits := (succeeds_coerce_iff hc hg s.aliasNames y f.type _ hk
            (s.ready_aliasNames f.type)).1 ⟨_, hout⟩
          exact absurd hadmits (not_admits_of_isNull hg hnull)
        · exact hfound

/-- An entry of a map counts only if it is admitted. -/
theorem trails_entry (hc : s.Closed) (hg : s.Guarded) {value : Ty Authored} (hk : s.Knows value)
    {x y : Value} (hsame : s.Admits x value ↔ s.Admits y value) {q : Prop} {path : Path}
    (h : Trails q (coerce ⟨s, eval, .quiet⟩ s.aliasNames x value path)
      (coerce ⟨s, eval, .quiet⟩ s.aliasNames y value path)) (key : String) :
    Trails (s.Admits x value → q)
      (keepOrDrop .quiet key (coerce ⟨s, eval, .quiet⟩ s.aliasNames x value path))
      (keepOrDrop .quiet key (coerce ⟨s, eval, .quiet⟩ s.aliasNames y value path)) := by
  have hr := s.ready_aliasNames value
  have admits (z : Value) : (coerce ⟨s, eval, .quiet⟩ s.aliasNames z value path).Succeeds ↔
      s.Admits z value := succeeds_coerce_iff hc hg _ z value path hk hr
  have hentry := Trails.keepOrDrop h (coerce_settles hc hg _ x value path hk hr)
    (coerce_settles hc hg _ y value path hk hr)
    (fun hy => (admits x).2 (hsame.2 ((admits y).1 hy))) key
  rwa [admits] at hentry

theorem trails_coerce (hc : s.Closed) (hg : s.Guarded) {o o' : Option Value} {t : Ty Authored}
    {sent : Ty Authored → Prop} (h : s.Omits o o' t sent) : ∀ {v w : Value}, o = some v →
      o' = some w → ∀ (pending : List String) (path : Path), s.Knows t → s.Ready pending t →
      Trails (∀ u, sent u → s.NullSilent eval u) (coerce ⟨s, eval, .quiet⟩ pending v t path)
        (coerce ⟨s, eval, .quiet⟩ pending w t path) := by
  induction h with
  | same =>
    rintro v w rfl ⟨⟩ pending path _ _
    exact (Trails.refl _).congr (iff_of_true trivial nofun)
  | null => exact nofun
  | @classRef v w name mode dyn a d vs ws sent hd hv hw hfields ih =>
    rintro _ _ ⟨⟩ ⟨⟩ pending path _ _
    refine trails_of_form ?_
    rw [coerceForm_classRef (c := ⟨s, eval, .quiet⟩) hd hv,
      coerceForm_classRef (c := ⟨s, eval, .quiet⟩) hd hw]
    have hfs : Trails (∀ f ∈ d.fields, ∀ u, sent f u → s.NullSilent eval u)
        (d.fields.mapM (coerceField ⟨s, eval, .quiet⟩ vs path))
        (d.fields.mapM (coerceField ⟨s, eval, .quiet⟩ ws path)) := Trails.mapM fun f hf => by
      have hk := hc.fields name mode d hd f hf
      exact trails_field hc hg hk (hfields f hf) fun hx hy here =>
        ih f hf hx hy _ here hk (s.ready_aliasNames f.type)
    exact (hfs.congr forall_sent_iff).andThen _
  | @list v w item a ps sent hv hw _ ih =>
    rintro _ _ ⟨⟩ ⟨⟩ pending path hk _
    refine trails_of_form ?_
    rw [coerceForm_list hv, coerceForm_list hw, List.zipIdx_map, List.zipIdx_map, List.mapM_map,
      List.mapM_map]
    have hitems := Trails.mapM fun (p : (Value × Value) × Nat) (hp : p ∈ ps.zipIdx) =>
      ih p.1 (List.fst_mem_of_mem_zipIdx hp) rfl rfl s.aliasNames (path.index p.2) hk.list
        (s.ready_aliasNames item)
    exact (hitems.congr forall_zipIdx_sent_iff).map _
  | @map v w key value a ps sent hv hw hps ih =>
    rintro _ _ ⟨⟩ ⟨⟩ pending path hk _
    refine trails_of_form ?_
    rw [coerceForm_map hv, coerceForm_map hw, List.mapM_map, List.mapM_map]
    have hkept := Trails.mapM fun (p : String × Value × Value) (hp : p ∈ ps) =>
      trails_entry hc hg hk.value (hps p hp).admits_iff (ih p hp rfl rfl s.aliasNames
        (path.key p.1) hk.value (s.ready_aliasNames value)) p.1
    refine (hkept.congr (Iff.trans ?_ forall_sent_iff)).andThen _
    refine forall₂_congr fun p _ => ?_
    exact ⟨fun h u hu => h hu.1 u hu.2, fun h hyes u hu => h u ⟨hyes, hu⟩⟩
  | @tuple v w types a ps sent hv hw _ ih =>
    rintro _ _ ⟨⟩ ⟨⟩ pending path hk hr
    refine trails_of_form ?_
    by_cases hlen : ps.length = types.length
    · rw [coerceForm_tuple hv (by rw [List.length_map, hlen]),
        coerceForm_tuple hw (by rw [List.length_map, hlen]), List.zip_map_left, List.zip_map_left,
        List.zipIdx_map, List.zipIdx_map, List.mapM_map, List.mapM_map]
      have hitems := Trails.mapM fun (p : ((Value × Value) × Ty Authored) × Nat)
          (hp : p ∈ (ps.zip types).zipIdx) =>
        have hmem := List.fst_mem_of_mem_zipIdx hp
        ih p.1 hmem rfl rfl s.aliasNames (path.index p.2) (hk.item (List.of_mem_zip hmem).2)
          (s.ready_aliasNames p.1.2)
      exact (hitems.congr forall_zipIdx_sent_iff).map _
    · intro x n hx
      have hadmits := (succeeds_coerceForm_iff hc hg pending v _ path hk hr).1 ⟨_, hx⟩
      exact absurd ((Schema.admits_tuple_iff hv).1 hadmits).1 (by rwa [List.length_map])
  | @aliasRef v w name mode a e sent he _ ih =>
    rintro _ _ ⟨⟩ ⟨⟩ pending path _ hr
    have hmem : name ∈ pending := hr.mem (by rw [he]; rfl)
    refine trails_of_form ?_
    rw [coerceForm_aliasRef (c := ⟨s, eval, .quiet⟩) he hmem,
      coerceForm_aliasRef (c := ⟨s, eval, .quiet⟩) he hmem]
    exact ih rfl rfl (pending.erase name) path (hc.expansions name e he) (hr.expand hg he)
  | @union v w before after m null a sent hv hw hbefore hm hmember ih =>
    rintro _ _ ⟨⟩ ⟨⟩ pending path hk hr
    have hmem : m ∈ before ++ m :: after := List.mem_append_right _ List.mem_cons_self
    refine trails_of_form ?_
    exact Trails.of_result ((ih rfl rfl pending path (hk.member hmem) (hr.member hmem)).andThen _)
      (result_union hc hg hk hr (by rw [hv]; rfl) (fun u hu => (hbefore u hu).1) hm path)
      (result_union hc hg hk hr (by rw [hw]; rfl) (fun u hu => (hbefore u hu).2)
        (hmember.admits_iff.1 hm) path)

/-! ## Top theorem -/

/-- Leaving optional fields out and sending them as null succeed alike and give the same value. The
checks and failed asserts of the former are among those of the latter, and are all of them exactly
if null is silent at the types of the fields. -/
theorem run_omitted (hc : s.Closed) (hg : s.Guarded) {v w : Value} {t : Ty Authored}
    {sent : Ty Authored → Prop} (hk : s.Knows t) (h : s.Omits (some v) (some w) t sent)
    (path : Path) :
    ((run ⟨s, eval, .quiet⟩ v t path).Succeeds ↔ (run ⟨s, eval, .quiet⟩ w t path).Succeeds) ∧
      ∀ x n, (run ⟨s, eval, .quiet⟩ v t path).result = .ok (x, n) →
        ∃ m, (run ⟨s, eval, .quiet⟩ w t path).result = .ok (x, m) ∧ n.Within m ∧
          (n.Agree m ↔ ∀ u, sent u → s.NullSilent eval u) := by
  refine ⟨?_, trails_coerce hc hg h rfl rfl s.aliasNames path hk (s.ready_aliasNames t)⟩
  rw [succeeds_run_iff hc hg hk, succeeds_run_iff hc hg hk]
  exact h.admits_iff

end

def guest : Ty Authored := .classRef "Guest" .complete false {}

/-- Guests may have a nickname, which is under a constraint. -/
def guestClass (c : Constraint) : ClassDef where
  name := ⟨"Guest", none⟩
  fields := [⟨⟨"name", none⟩, .prim .string {}, none, false⟩,
    ⟨⟨"nick", some "nickname"⟩, .union [.prim .string {}] (some {}) ⟨[c], {}⟩, none, false⟩]

def guests (c : Constraint) : Schema where
  target := .list guest {}
  enums := []
  classes := [guestClass c]
  recursiveClasses := []
  aliases := []

/-- A guest without a nickname, and one whose nickname is null. -/
def plain : Value := .map [("name", .text "Ann")]

def nulled : Value := .map [("name", .text "Ann"), ("nick", .null)]

theorem guarded_guests (c : Constraint) : (guests c).Guarded :=
  Schema.guarded_of_expand?_none fun _ => rfl

theorem admits_plain (c : Constraint) : (guests c).Admits (.list [plain]) (.list guest {}) := by
  refine .list rfl fun x hx => ?_
  rw [List.mem_singleton.1 hx]
  have hd : (guests c).findClass? "Guest" .complete = some (guestClass c) := rfl
  refine .classRef hd rfl fun f hf => ?_
  simp only [guestClass, List.mem_cons, List.not_mem_nil, or_false] at hf
  rcases hf with rfl | rfl
  · exact .prim rfl
  · exact .unionNull

/-- Of the fields of a guest only the nickname is left out and sent as null. -/
theorem omits_plain (c : Constraint) : ∃ sent,
    (guests c).Omits (some (.list [plain])) (some (.list [nulled])) (.list guest {}) sent ∧
      ∀ u, sent u → u = .union [.prim .string {}] (some {}) ⟨[c], {}⟩ := by
  let es : List (String × Value) := [("name", .text "Ann")]
  have hd : (guests c).findClass? "Guest" .complete = some (guestClass c) := rfl
  have hplain : plain.entries? = some es := rfl
  have hnulled : nulled.entries? = some (Entries.insert es "nick" .null) := rfl
  have hreal : ∀ f ∈ (guestClass c).fields, f.name.real = "nick" → f.name.lookup? es = none := by
    intro f hf hname
    simp only [guestClass, List.mem_cons, List.not_mem_nil, or_false] at hf
    rcases hf with rfl | rfl
    · exact absurd hname (by decide)
    · rfl
  obtain ⟨sent, hguest, hsent⟩ : ∃ sent,
      (guests c).Omits (some plain) (some nulled) guest sent ∧
        ∀ u, sent u → u = .union [.prim .string {}] (some {}) ⟨[c], {}⟩ := by
    refine ⟨_, Schema.omits_insert hd hplain hnulled (by decide) hreal, ?_⟩
    rintro u ⟨f, hf, ⟨hleft, -⟩, rfl⟩
    simp only [guestClass, List.mem_cons, List.not_mem_nil, or_false] at hf
    rcases hf with rfl | rfl
    · cases hleft
    · rfl
  refine ⟨fun u => ∃ p ∈ [(plain, nulled)], sent u, .list rfl rfl fun p hp => ?_, ?_⟩
  · rw [List.mem_singleton.1 hp]
    exact hguest
  · rintro u ⟨-, -, hu⟩
    exact hsent u hu

/-- A nickname that is under an assert which null passes. -/
theorem run_omitted_guests : ∃ c eval sent x n m, (guests c).Closed ∧ (guests c).Guarded ∧
    (guests c).Knows (.list guest {}) ∧
    (guests c).Omits (some (.list [plain])) (some (.list [nulled])) (.list guest {}) sent ∧
    (run ⟨guests c, eval, .quiet⟩ (.list [plain]) (.list guest {}) .root).result = .ok (x, n) ∧
    (run ⟨guests c, eval, .quiet⟩ (.list [nulled]) (.list guest {}) .root).result = .ok (x, m) ∧
    n.Agree m := by
  let c : Constraint := ⟨.assert, none, "this == null or this.length < 9"⟩
  let eval : Evaluator := fun _ _ => .ok true
  have hc : (guests c).Closed := Schema.closed_of_offersAll (by decide) (by decide)
  have hk : (guests c).Knows (.list guest {}) := Schema.knows_of_offersAll (by decide)
  obtain ⟨sent, homits, hsent⟩ := omits_plain c
  obtain ⟨⟨x, n⟩, hn⟩ := (succeeds_run_iff hc (guarded_guests c) hk _ .root).2 (admits_plain c)
  obtain ⟨m, hm, -, hagree⟩ := (run_omitted hc (guarded_guests c) hk homits .root).2 x n hn
  refine ⟨c, eval, sent, x, n, m, hc, guarded_guests c, hk, homits, hn, hm, hagree.2 ?_⟩
  intro u hu d hmeets
  rw [hsent u hu] at hmeets
  cases hmeets with
  | own hd =>
    rw [List.mem_singleton.1 hd]
    exact ⟨rfl, rfl⟩

/-- A check that null fails is recorded only of a null that is sent. -/
theorem run_omitted_differs :
    (guests ⟨.check, some "named", "this != null"⟩).Closed ∧
    ((Coercer.mk (guests ⟨.check, some "named", "this != null"⟩) (fun _ _ => .ok false) .quiet).run
      plain guest .root).result.map (fun p => (p.1, p.2.checks)) =
        .ok (.classOf "Guest" [("name", .text "Ann"), ("nick", .null)], []) ∧
    ((Coercer.mk (guests ⟨.check, some "named", "this != null"⟩) (fun _ _ => .ok false) .quiet).run
      nulled guest .root).result.map (fun p => (p.1, p.2.checks)) =
        .ok (.classOf "Guest" [("name", .text "Ann"), ("nick", .null)],
          [⟨"named", "this != null", false⟩]) := by
  refine ⟨Schema.closed_of_offersAll (by decide) (by decide), ?_, ?_⟩
  all_goals
    simp [run, guests, guestClass, guest, plain, nulled, coerce, coerceForm, coercePrim,
      Schema.findClass?, Schema.registered?, Value.entries?, Name.lookup?, Entries.find?,
      Schema.acceptsNull, Schema.acceptsNullAmong, firstFit]
    rfl

end Coercer

end ShapeSchema
