import ShapeSchema.Proofs.Convert.Conforms
import ShapeSchema.Proofs.Convert.Forms
import ShapeSchema.Proofs.Convert.Formed

/-!
# Values that rest

A value rests at a type if coercion gives it back unchanged. `Schema.Rests` says by induction which
values do: those of the type's form of which no union hands a part to a member before the one where
the part rests. On a closed schema with guarded aliases and distinct fields these are the values
that coercion leaves alone (`Coercer.makes_self_iff`).
-/

namespace ShapeSchema

/-! ## What a run makes -/

namespace Checked

variable {α β : Type}

/-- A run gives a value, with whatever notes. -/
def Makes (x : Checked α) (a : α) : Prop := x.Answers (fun _ => True) a

theorem splits_any : Notes.Splits fun _ => True := fun _ _ _ => ⟨trivial, trivial⟩

theorem joins_any : Notes.Joins fun _ => True := ⟨trivial, fun _ _ => trivial⟩

theorem makes_iff {x : Checked α} {a : α} : x.Makes a ↔ ∃ n, x.result = .ok (a, n) := by
  unfold Makes Answers
  simp

/-- The value that a run gives, if it does. -/
def value? (x : Checked α) : Option α := x.result.toOption.map Prod.fst

theorem value?_eq_some_iff {x : Checked α} {a : α} : x.value? = some a ↔ x.Makes a := by
  rw [makes_iff]
  unfold value?
  cases h : x.result with
  | error e => simp [Except.toOption]
  | ok p => simp [Except.toOption, Prod.ext_iff]

theorem Makes.succeeds {x : Checked α} {a : α} (h : x.Makes a) : x.Succeeds := by
  obtain ⟨n, hn, -⟩ := h
  exact ⟨_, hn⟩

theorem succeeds_iff_makes {x : Checked α} : x.Succeeds ↔ ∃ a, x.Makes a := by
  refine ⟨?_, fun ⟨a, h⟩ => h.succeeds⟩
  rintro ⟨⟨a, n⟩, h⟩
  exact ⟨a, n, h, trivial⟩

theorem makes_pure_iff {a b : α} : (Pure.pure a : Checked α).Makes b ↔ a = b := by
  refine ⟨Answers.of_pure, ?_⟩
  rintro rfl
  exact answers_pure joins_any a

theorem not_makes_fail {e : Fault} {a : α} : ¬ (fail e : Checked α).Makes a := Answers.not_fail

theorem makes_bind_iff {x : Checked α} {f : α → Checked β} {b : β} :
    (x >>= f).Makes b ↔ ∃ a, x.Makes a ∧ (f a).Makes b :=
  ⟨fun h => h.of_bind splits_any, fun ⟨_, hx, hf⟩ => hx.bind joins_any hf⟩

theorem makes_map_iff {x : Checked α} {f : α → β} {b : β} :
    (f <$> x).Makes b ↔ ∃ a, x.Makes a ∧ f a = b := by
  refine ⟨Answers.of_map, ?_⟩
  rintro ⟨a, hx, rfl⟩
  exact hx.map f

theorem makes_mapM_iff {f : α → Checked β} {xs : List α} {ys : List β} :
    (xs.mapM f).Makes ys ↔ List.Forall₂ (fun x y => (f x).Makes y) xs ys :=
  ⟨fun h => h.of_mapM splits_any, answers_mapM joins_any⟩

/-- A run over a list that makes of each item what a function does. -/
theorem makes_mapM_map_iff {f : α → Checked β} (xs : List α) (g : α → β) :
    (xs.mapM f).Makes (xs.map g) ↔ ∀ x ∈ xs, (f x).Makes (g x) := by
  rw [makes_mapM_iff, List.forall₂_map_right_iff, List.forall₂_same]

/-- What comes before the last run does not matter if it succeeds. -/
theorem makes_after {x : Checked α} (hx : x.Succeeds) {y : Checked β} {b : β} :
    (x >>= fun _ => y).Makes b ↔ y.Makes b := by
  rw [makes_bind_iff]
  refine ⟨fun ⟨_, _, hy⟩ => hy, fun hy => ?_⟩
  obtain ⟨a, ha⟩ := succeeds_iff_makes.1 hx
  exact ⟨a, ha, hy⟩

end Checked

/-! ## Choices -/

section
variable {α β : Type} {passed taken : α → Prop}

/-- Some elements are passed over, and the next one is taken. -/
def Chosen (passed taken : α → Prop) (xs : List α) : Prop :=
  ∃ before x after, xs = before ++ x :: after ∧ (∀ y ∈ before, passed y) ∧ taken x

theorem not_chosen_nil : ¬ Chosen passed taken [] := by
  rintro ⟨before, x, after, h, -⟩
  cases before <;> cases h

theorem chosen_cons {x : α} {xs : List α} :
    Chosen passed taken (x :: xs) ↔ taken x ∨ (passed x ∧ Chosen passed taken xs) := by
  constructor
  · rintro ⟨before, y, after, h, hbefore, hy⟩
    cases before with
    | nil =>
      cases h
      exact .inl hy
    | cons z before =>
      cases h
      rw [List.forall_mem_cons] at hbefore
      exact .inr ⟨hbefore.1, before, y, after, rfl, hbefore.2, hy⟩
  · rintro (hx | ⟨hx, before, y, after, rfl, hbefore, hy⟩)
    · exact ⟨[], x, xs, rfl, by simp, hx⟩
    · exact ⟨x :: before, y, after, rfl, List.forall_mem_cons.2 ⟨hx, hbefore⟩, hy⟩

theorem chosen_map (f : β → α) (xs : List β) :
    Chosen passed taken (xs.map f) ↔ Chosen (fun x => passed (f x)) (fun x => taken (f x)) xs := by
  induction xs with
  | nil => exact iff_of_false not_chosen_nil not_chosen_nil
  | cons x xs ih => rw [List.map_cons, chosen_cons, chosen_cons, ih]

theorem chosen_congr {passed' taken' : α → Prop} {xs : List α}
    (hp : ∀ x ∈ xs, passed x ↔ passed' x) (ht : ∀ x ∈ xs, taken x ↔ taken' x) :
    Chosen passed taken xs ↔ Chosen passed' taken' xs := by
  induction xs with
  | nil => exact iff_of_false not_chosen_nil not_chosen_nil
  | cons x xs ih =>
    rw [List.forall_mem_cons] at hp ht
    rw [chosen_cons, chosen_cons, hp.1, ht.1, ih hp.2 ht.2]

theorem chosen_zipIdx {xs : List α} : Chosen (fun p => passed p.1) (fun p => taken p.1) xs.zipIdx ↔
    Chosen passed taken xs := by
  conv => rhs; rw [← List.zipIdx_map_fst 0 xs]
  exact (chosen_map Prod.fst xs.zipIdx).symm

end

/-! ## Normal and resting values -/

/-- A value has the form that coercion gives to values of a type, where `passed` tells which members
of a union may be passed over for it. -/
inductive Schema.Normal (s : Schema) (passed : Value → Ty Authored → Prop) :
    Value → Ty Authored → Prop where
  | top {v : Value} {a : Authored} : Normal s passed v (.top a)
  | prim {p : Prim} {v : Value} {a : Authored} : p.Holds v → Normal s passed v (.prim p a)
  | literal {l : Literal} {v : Value} {a : Authored} :
      l.matches v = true → Normal s passed v (.literal l a)
  | enumRef {name key : String} {dyn : Bool} {a : Authored} {e : EnumDef} {x : EnumValueDef} :
      s.findEnum? name = some e → e.findValue? key = some x → x.name.real = key →
      Normal s passed (.enumOf name key) (.enumRef name dyn a)
  | classRef {name : String} {mode : Mode} {dyn : Bool} {a : Authored} {d : ClassDef}
      {fs : List (String × Value)} :
      s.findClass? name mode = some d → Entries.keys fs = d.fields.map (·.name.real) →
      (∀ f ∈ d.fields, ∀ v, (f.name.real, v) ∈ fs → Normal s passed v f.type) →
      Normal s passed (.classOf name fs) (.classRef name mode dyn a)
  | list {vs : List Value} {item : Ty Authored} {a : Authored} :
      (∀ v ∈ vs, Normal s passed v item) → Normal s passed (.list vs) (.list item a)
  | map {es : List (String × Value)} {key value : Ty Authored} {a : Authored} :
      (Entries.keys es).Nodup → (∀ p ∈ es, Normal s passed p.2 value) →
      Normal s passed (.map es) (.map key value a)
  | tuple {vs : List Value} {types : List (Ty Authored)} {a : Authored} :
      vs.length = types.length → (∀ p ∈ vs.zip types, Normal s passed p.1 p.2) →
      Normal s passed (.list vs) (.tuple types a)
  | aliasRef {name : String} {mode : Mode} {a : Authored} {e : Ty Authored} {v : Value} :
      s.expand? name = some e → Normal s passed v e → Normal s passed v (.aliasRef name mode a)
  | unionNull {ms : List (Ty Authored)} {n a : Authored} :
      Normal s passed .null (.union ms (some n) a)
  | unionMember {before after : List (Ty Authored)} {null : Option Authored} {a : Authored}
      {v : Value} {m : Ty Authored} :
      (∀ u ∈ before, passed v u) → Normal s passed v m →
      Normal s passed v (.union (before ++ m :: after) null a)

/-- A value is normal, and each part of it that a union stands for rests at the first member that
admits it. -/
def Schema.Rests (s : Schema) : Value → Ty Authored → Prop := s.Normal fun v u => ¬ s.Admits v u

namespace Schema

variable {s : Schema} {passed : Value → Ty Authored → Prop} {v : Value} {t : Ty Authored}

theorem takes_of_holds {p : Prim} (h : p.Holds v) : p.takes v = true := by
  cases h with
  | media m => exact decide_eq_true rfl
  | _ => rfl

/-- The entry of a field is found under its real name. -/
theorem lookup?_of_mem {es : List (String × Value)} (nd : (Entries.keys es).Nodup) {n : Name}
    (h : (n.real, v) ∈ es) : n.lookup? es = some v := by
  unfold Name.lookup?
  rw [Entries.find?_eq_some_of_mem nd h]
  rfl

theorem Normal.admits (hs : s.DistinctFields) (h : s.Normal passed v t) : s.Admits v t := by
  induction h with
  | top => exact .top
  | prim h => exact .prim (takes_of_holds h)
  | literal h => exact .literal h
  | enumRef he hx _ => exact .enumRef he rfl (by rw [hx]; rfl)
  | @classRef name mode _ _ d fs hd hnames _ ih =>
    refine .classRef hd rfl fun f hf => ?_
    have nd : (Entries.keys fs).Nodup := hnames ▸ hs name mode d hd
    have hkey : f.name.real ∈ Entries.keys fs := hnames ▸ List.mem_map_of_mem hf
    obtain ⟨⟨k, x⟩, hmem, rfl⟩ := List.mem_map.1 hkey
    rw [lookup?_of_mem nd hmem]
    exact ih f hf x hmem
  | list _ ih => exact .list rfl ih
  | map _ _ _ => exact .map rfl
  | tuple hlen _ ih => exact .tuple rfl hlen ih
  | aliasRef he _ ih => exact .aliasRef he ih
  | unionNull => exact .unionNull
  | unionMember _ _ ih => exact .unionMember (List.mem_append_right _ List.mem_cons_self) ih

end Schema

/-! ## What coercion makes -/

namespace Coercer

open Checked

section

variable {s : Schema} {eval : Evaluator} {pending : List String} {v w : Value} {path : Path}
  {a : Authored}

/-- Constraints do not change what coercion makes. -/
theorem makes_coerce_iff {t : Ty Authored} : (coerce ⟨s, eval, .quiet⟩ pending v t path).Makes w ↔
    (coerceForm ⟨s, eval, .quiet⟩ pending v t path).Makes w := by
  rw [coerce, makes_bind_iff]
  simp only [makes_after (succeeds_evaluate _ _ _), makes_pure_iff, exists_eq_right]

theorem makes_prim_self_iff {p : Prim} {t : Ty Authored} :
    (coercePrim p t v path).Makes v ↔ p.Holds v := by
  refine ⟨fun ⟨n, h, _⟩ => holds_of_coercePrim h, fun h => ?_⟩
  cases h with
  | media m =>
    show (if m.kind = m.kind then Pure.pure (Value.media m) else _ : Checked Value).Makes _
    rw [if_pos rfl]
    exact makes_pure_iff.2 rfl
  | _ => exact makes_pure_iff.2 rfl

theorem makes_enum_iff {c : Coercer} {name : String} {e : EnumDef}
    (he : c.schema.findEnum? name = some e) {t : Ty Authored} :
    (c.coerceEnum name t v path).Makes w ↔ ∃ key x, v.variantName? = some key ∧
      e.findValue? key = some x ∧ w = .enumOf name x.name.real := by
  unfold coerceEnum
  rw [he]
  cases hkey : v.variantName? with
  | none => exact iff_of_false not_makes_fail (by simp)
  | some key =>
    cases hx : e.findValue? key with
    | none =>
      simp only [hx]
      exact iff_of_false not_makes_fail (by simp [hx])
    | some x =>
      have hmade : (Pure.pure (Value.enumOf name x.name.real) : Checked Value).Makes w ↔
          ∃ key' y, some key = some key' ∧ e.findValue? key' = some y ∧
            w = .enumOf name y.name.real := by
        rw [makes_pure_iff, eq_comm]
        simp [hx]
      rw [← hmade]
      cases v with
      | text t =>
        simp only [hx]
        exact makes_after (succeeds_note _)
      | _ => simp only [hx]

/-- The first run that succeeds decides, if none ends in any other way than a misfit. -/
theorem makes_firstFit_iff {whenEmpty : Checked Value} (hempty : ¬ whenEmpty.Succeeds)
    {runs : List (Unit → Checked Value)} (h : ∀ run ∈ runs, (run ()).Settles)
    (last : Option Fault) : (firstFit last whenEmpty runs).Makes w ↔
      Chosen (fun run => ¬ (run ()).Succeeds) (fun run => (run ()).Makes w) runs := by
  induction runs generalizing last with
  | nil =>
    refine iff_of_false (fun hmakes => ?_) not_chosen_nil
    cases last with
    | none => exact hempty hmakes.succeeds
    | some e => exact not_makes_fail hmakes
  | cons run runs ih =>
    rw [firstFit, chosen_cons]
    rcases h run List.mem_cons_self with hsome | ⟨m, hm⟩
    · have hrun : (run ()).Succeeds := hsome
      obtain ⟨p, hp⟩ := hsome
      simp only [hp]
      rw [or_iff_left fun hno => hno.1 hrun]
    · have hrun : ¬ (run ()).Succeeds := by
        rintro ⟨p, hp⟩
        rw [hm] at hp
        cases hp
      simp only [hm]
      rw [and_iff_right hrun, or_iff_right fun hmakes => hrun hmakes.succeeds]
      exact ih (fun r hr => h r (List.mem_cons_of_mem _ hr)) _

theorem makes_member_iff {several : Bool} {m : Ty Authored × Nat} {c : Coercer} :
    (c.coerceMember pending v path several m).Makes w ↔ (c.coerce pending v m.1 path).Makes w := by
  unfold coerceMember
  rw [makes_bind_iff]
  have hchosen : ∀ out : Value, (do
      if several then .flag ⟨.unionMember, path.text, some (toString m.2)⟩
      return out : Checked Value).Makes w ↔ out = w := by
    intro out
    cases several with
    | true => exact (makes_after (succeeds_note _)).trans makes_pure_iff
    | false => exact makes_pure_iff
  simp only [hchosen, exists_eq_right]

/-- A union makes what its first member makes that admits the value. -/
theorem makes_union_iff {ms : List (Ty Authored)} {null : Option Authored}
    (hnull : (v.isNull && null.isSome) = false)
    (settled : ∀ m ∈ ms, (coerce ⟨s, eval, .quiet⟩ pending v m path).Settles)
    (ih : ∀ m ∈ ms, (coerce ⟨s, eval, .quiet⟩ pending v m path).Succeeds ↔ s.Admits v m) :
    (coerceForm ⟨s, eval, .quiet⟩ pending v (.union ms null a) path).Makes w ↔
      Chosen (fun m => ¬ s.Admits v m)
        (fun m => (coerce ⟨s, eval, .quiet⟩ pending v m path).Makes w) ms := by
  have hempty : ¬ (wrongKind (.union ms null a) v path : Checked Value).Succeeds :=
    not_succeeds_fail _
  rw [coerceForm_union hnull]
  refine (makes_firstFit_iff hempty (fun run hrun => ?_) none).trans ?_
  · obtain ⟨m, hm, rfl⟩ := List.mem_map.1 hrun
    rcases settled m.1 (List.fst_mem_of_mem_zipIdx hm) with hsome | ⟨e, he⟩
    · exact .inl (succeeds_coerceMember_iff.2 hsome)
    · exact .inr ⟨e, Checked.error_bind he _⟩
  · rw [chosen_map]
    rw [← @chosen_zipIdx _ (fun m => ¬ s.Admits v m) _ ms]
    refine chosen_congr (fun m hm => ?_) fun m _ => makes_member_iff
    rw [succeeds_coerceMember_iff, ih m.1 (List.fst_mem_of_mem_zipIdx hm)]

theorem makes_keepOrDrop_some_iff {sink : Sink} {key k : String} {r : Checked Value} :
    (keepOrDrop sink key r).Makes (some (k, w)) ↔ k = key ∧ r.Makes w := by
  constructor
  · rintro ⟨n, h, -⟩
    rcases ok_keepOrDrop h with h0 | ⟨x, h0, hx⟩
    · cases h0
    · cases h0
      exact ⟨rfl, n, hx, trivial⟩
  · rintro ⟨rfl, n, hn, -⟩
    unfold keepOrDrop
    rw [hn]
    exact ⟨n, rfl, trivial⟩

theorem eq_map_some {α : Type} {l : List (Option α)} (h : ∀ o ∈ l, o.isSome = true) :
    l = (l.filterMap id).map some := by
  induction l with
  | nil => rfl
  | cons o l ih =>
    rw [List.forall_mem_cons] at h
    obtain ⟨x, rfl⟩ := Option.isSome_iff_exists.1 h.1
    exact congrArg (some x :: ·) (ih h.2)

/-- Nothing was dropped from entries that come out the same: each key stands only once. -/
theorem kept_of_same {es : List (String × Value)} {kept : List (Option (String × Value))}
    (h : List.Forall₂ (fun p o => ∀ q, o = some q → q.1 = p.1) es kept)
    (hes : Entries.ofList (kept.filterMap id) = es) : kept = es.map some := by
  have nd : (Entries.keys es).Nodup := by
    rw [← hes]
    exact Entries.nodup_ofList _
  have hsub : (Entries.keys (kept.filterMap id)).Sublist (Entries.keys es) := by
    clear hes nd
    induction h with
    | nil => exact List.Sublist.refl []
    | @cons p o es kept hp _ ih =>
      cases o with
      | none => exact ih.cons p.1
      | some q =>
        show (q.1 :: Entries.keys (kept.filterMap id)).Sublist (p.1 :: Entries.keys es)
        rw [hp q rfl]
        exact ih.cons_cons p.1
  rw [Entries.ofList_of_nodup (hsub.nodup nd)] at hes
  have hall : ∀ o ∈ kept, (id o).isSome = true := by
    rw [← List.filterMap_length_eq_length, hes]
    exact h.length_eq
  rw [← hes]
  exact eq_map_some hall

/-- A map comes back unchanged if its keys are distinct and no entry is dropped or changed. -/
theorem makes_map_self_iff {c : Coercer} {es : List (String × Value)} {key value : Ty Authored} :
    (c.coerceForm pending (.map es) (.map key value a) path).Makes (.map es) ↔
      (Entries.keys es).Nodup ∧ ∀ p ∈ es,
        (c.coerce c.schema.aliasNames p.2 value (path.key p.1)).Makes p.2 := by
  have hkept : (es.map some).filterMap id = es := by
    rw [List.filterMap_map]
    exact List.filterMap_some
  rw [coerceForm_map rfl, makes_bind_iff]
  constructor
  · rintro ⟨kept, hmade, hout⟩
    have hes : Entries.ofList (kept.filterMap id) = es :=
      Value.map.inj (makes_pure_iff.1 hout)
    have hnamed : List.Forall₂ (fun p o => ∀ q, o = some q → q.1 = p.1) es kept := by
      refine (makes_mapM_iff.1 hmade).imp fun p o hp q hq => ?_
      rw [hq] at hp
      exact (makes_keepOrDrop_some_iff.1 hp).1
    refine ⟨?_, fun p hp => ?_⟩
    · rw [← hes]
      exact Entries.nodup_ofList _
    · rw [kept_of_same hnamed hes, makes_mapM_map_iff] at hmade
      exact (makes_keepOrDrop_some_iff.1 (hmade p hp)).2
  · rintro ⟨nd, h⟩
    refine ⟨es.map some, (makes_mapM_map_iff es some).2 fun p hp => ?_, makes_pure_iff.2 ?_⟩
    · exact makes_keepOrDrop_some_iff.2 ⟨rfl, h p hp⟩
    · rw [hkept, Value.ofEntries, Entries.ofList_of_nodup nd]

/-- A field that stands among the entries comes back unchanged if it does so in its type; only a
null that the type does not accept is refused beforehand. -/
theorem makes_field_self_iff (hg : s.Guarded) {es : List (String × Value)} {f : FieldDef}
    (hfound : f.name.lookup? es = some v)
    (ih : (coerce ⟨s, eval, .quiet⟩ s.aliasNames v f.type (path.field f.name.real)).Makes v →
      s.Admits v f.type) :
    (coerceField ⟨s, eval, .quiet⟩ es path f).Makes (f.name.real, v) ↔
      (coerce ⟨s, eval, .quiet⟩ s.aliasNames v f.type (path.field f.name.real)).Makes v := by
  unfold coerceField
  rw [hfound]
  show (if v.isNull && !s.acceptsNull f.type then _ else _ : Checked (String × Value)).Makes _ ↔ _
  split
  · next hnull =>
    exact iff_of_false not_makes_fail fun hmakes => not_admits_of_isNull hg hnull (ih hmakes)
  · rw [makes_bind_iff]
    simp only [makes_pure_iff, Prod.mk.injEq, true_and, exists_eq_right]

theorem name_of_makes_field {c : Coercer} {es : List (String × Value)} {f : FieldDef}
    {r : String × Value} (h : (c.coerceField es path f).Makes r) : r.1 = f.name.real := by
  unfold coerceField at h
  split at h
  · split at h
    · obtain ⟨-, -, hp⟩ := makes_bind_iff.1 h
      rw [← makes_pure_iff.1 hp]
    · exact absurd h not_makes_fail
  · split at h
    · exact absurd h not_makes_fail
    · obtain ⟨x, -, hp⟩ := makes_bind_iff.1 h
      rw [← makes_pure_iff.1 hp]

/-- Fields under the names of their definitions, one by one. -/
theorem forall₂_of_names {ds : List FieldDef} {es : List (String × Value)}
    (h : Entries.keys es = ds.map (·.name.real)) :
    List.Forall₂ (fun f r => f ∈ ds ∧ r ∈ es ∧ r.1 = f.name.real) ds es := by
  have hnamed : List.Forall₂ (fun f (r : String × Value) => r.1 = f.name.real) ds es := by
    have heq : List.Forall₂ Eq (ds.map (·.name.real)) (es.map Prod.fst) := by
      rw [List.forall₂_eq_eq_eq]
      exact h.symm
    rw [List.forall₂_map_left_iff, List.forall₂_map_right_iff] at heq
    exact heq.imp fun _ _ => Eq.symm
  have hmem := (List.forall₂_and_left es ds).2 ⟨fun _ hr => hr, hnamed.flip⟩
  exact (List.forall₂_and_left ds es).2 ⟨fun _ hf => hf, hmem.flip⟩

/-- What relates fields one by one to entries under their names relates a field to its entry. -/
theorem of_forall₂_names {R : FieldDef → String × Value → Prop}
    (hname : ∀ f r, R f r → r.1 = f.name.real) {ds : List FieldDef} {es : List (String × Value)}
    (h : List.Forall₂ R ds es) (nd : (Entries.keys es).Nodup) {f : FieldDef} (hf : f ∈ ds)
    {x : Value} (hx : (f.name.real, x) ∈ es) : R f (f.name.real, x) := by
  obtain ⟨⟨k, y⟩, hy, hr⟩ := exists_of_forall₂ h.flip hf
  obtain rfl : k = f.name.real := hname f _ hr
  have hfound := Entries.find?_eq_some_of_mem nd hx
  rw [Entries.find?_eq_some_of_mem nd hy] at hfound
  rwa [← Option.some.inj hfound]

/-- A class value comes back unchanged if its fields do, which stand in order. -/
theorem makes_class_self_iff (hs : s.DistinctFields) {name : String} {mode : Mode} {dyn : Bool}
    {d : ClassDef} (hd : s.findClass? name mode = some d) {es : List (String × Value)}
    (hes : v.entries? = some es) :
    (coerceForm ⟨s, eval, .quiet⟩ pending v (.classRef name mode dyn a) path).Makes v ↔
      v = .classOf name es ∧ Entries.keys es = d.fields.map (·.name.real) ∧
        ∀ f ∈ d.fields, ∀ x, (f.name.real, x) ∈ es →
          (coerceField ⟨s, eval, .quiet⟩ es path f).Makes (f.name.real, x) := by
  have nd := hs name mode d hd
  rw [coerceForm_classRef (c := ⟨s, eval, .quiet⟩) hd hes, makes_bind_iff]
  simp only [makes_after (succeeds_evaluate _ _ _), makes_pure_iff]
  constructor
  · rintro ⟨fs, hmade, rfl⟩
    have hfields := makes_mapM_iff.1 hmade
    have hnames : Entries.keys fs = d.fields.map (·.name.real) :=
      map_eq_of_forall₂ (hfields.imp fun _ _ hr => name_of_makes_field hr)
    rw [← hnames] at nd
    obtain rfl : fs = es := (Entries.ofList_of_nodup nd).symm.trans (Option.some.inj hes)
    refine ⟨by rw [Value.ofFields, Entries.ofList_of_nodup nd], hnames, fun f hf x hx => ?_⟩
    exact of_forall₂_names (fun _ _ hr => name_of_makes_field hr) hfields nd hf hx
  · rintro ⟨hv, hnames, h⟩
    rw [← hnames] at nd
    refine ⟨es, makes_mapM_iff.2 ?_, by rw [Value.ofFields, Entries.ofList_of_nodup nd, hv]⟩
    refine (forall₂_of_names hnames).imp ?_
    rintro f ⟨k, x⟩ ⟨hf, hx, rfl⟩
    exact h f hf x hx

theorem rests_class_iff {name : String} {mode : Mode} {dyn : Bool}
    {d : ClassDef} (hd : s.findClass? name mode = some d) {es : List (String × Value)}
    (hes : v.entries? = some es) : s.Rests v (.classRef name mode dyn a) ↔
      v = .classOf name es ∧ Entries.keys es = d.fields.map (·.name.real) ∧
        ∀ f ∈ d.fields, ∀ x, (f.name.real, x) ∈ es → s.Rests x f.type := by
  constructor
  · intro h
    cases h with
    | classRef hd' hnames hfs =>
      obtain rfl := Option.some.inj (hd.symm.trans hd')
      cases hes
      exact ⟨rfl, hnames, hfs⟩
  · rintro ⟨rfl, hnames, hfs⟩
    exact .classRef hd hnames hfs

theorem makes_list_self_iff {c : Coercer} {vs : List Value} {item : Ty Authored} :
    (c.coerceForm pending (.list vs) (.list item a) path).Makes (.list vs) ↔
      ∀ p ∈ vs.zipIdx, (c.coerce c.schema.aliasNames p.1 item (path.index p.2)).Makes p.1 := by
  have hitems := makes_mapM_map_iff vs.zipIdx Prod.fst
    (f := fun p => c.coerce c.schema.aliasNames p.1 item (path.index p.2))
  rw [List.zipIdx_map_fst] at hitems
  rw [coerceForm_list rfl, makes_map_iff, ← hitems]
  simp only [Value.list.injEq, exists_eq_right]

theorem rests_list_iff {vs : List Value} {item : Ty Authored} :
    s.Rests (.list vs) (.list item a) ↔ ∀ p ∈ vs.zipIdx, s.Rests p.1 item := by
  rw [forall_mem_zipIdx (P := fun x => s.Rests x item)]
  exact ⟨fun | .list h => h, .list⟩

/-- A list comes back unchanged as a tuple if it has an item for each type that does so. -/
theorem makes_tuple_self_iff {c : Coercer} {vs : List Value} {types : List (Ty Authored)} :
    (c.coerceForm pending (.list vs) (.tuple types a) path).Makes (.list vs) ↔
      vs.length = types.length ∧ ∀ p ∈ (vs.zip types).zipIdx,
        (c.coerce c.schema.aliasNames p.1.1 p.1.2 (path.index p.2)).Makes p.1.1 := by
  by_cases hlen : vs.length = types.length
  · have hitems := makes_mapM_map_iff (vs.zip types).zipIdx (fun p => p.1.1)
      (f := fun p => c.coerce c.schema.aliasNames p.1.1 p.1.2 (path.index p.2))
    have hfst : (vs.zip types).zipIdx.map (fun p => p.1.1) = vs := by
      have hmap := congrArg (List.map Prod.fst) (List.zipIdx_map_fst 0 (vs.zip types))
      rw [List.map_map] at hmap
      exact hmap.trans (List.map_fst_zip (Nat.le_of_eq hlen))
    rw [hfst] at hitems
    rw [coerceForm_tuple rfl hlen, makes_map_iff, and_iff_right hlen, ← hitems]
    simp only [Value.list.injEq, exists_eq_right]
  · refine iff_of_false (fun h => ?_) fun h => hlen h.1
    obtain ⟨items, ws, -, hws, hmade⟩ := answers_tuple splits_any h
    cases hws
    exact hlen hmade.length_eq

theorem rests_tuple_iff {vs : List Value} {types : List (Ty Authored)} :
    s.Rests (.list vs) (.tuple types a) ↔
      vs.length = types.length ∧ ∀ p ∈ (vs.zip types).zipIdx, s.Rests p.1.1 p.1.2 := by
  rw [forall_mem_zipIdx (P := fun q : Value × Ty Authored => s.Rests q.1 q.2)]
  exact ⟨fun | .tuple hlen h => ⟨hlen, h⟩, fun h => .tuple h.1 h.2⟩

theorem rests_map_iff {es : List (String × Value)} {key value : Ty Authored} :
    s.Rests (.map es) (.map key value a) ↔
      (Entries.keys es).Nodup ∧ ∀ p ∈ es, s.Rests p.2 value :=
  ⟨fun | .map nd h => ⟨nd, h⟩, fun h => .map h.1 h.2⟩

theorem rests_union_iff {ms : List (Ty Authored)} {null : Option Authored}
    (hnull : (v.isNull && null.isSome) = false) : s.Rests v (.union ms null a) ↔
      Chosen (fun m => ¬ s.Admits v m) (fun m => s.Rests v m) ms := by
  constructor
  · intro h
    cases h with
    | unionNull => cases hnull
    | unionMember hbefore hm => exact ⟨_, _, _, rfl, hbefore, hm⟩
  · rintro ⟨before, m, after, rfl, hbefore, hm⟩
    exact .unionMember hbefore hm

/-- Coercion gives exactly those values back unchanged that rest at the type. -/
theorem makes_self_iff (hc : s.Closed) (hg : s.Guarded) (hs : s.DistinctFields)
    (pending : List String) (v : Value) (t : Ty Authored) (path : Path) (hk : s.Knows t)
    (hr : s.Ready pending t) :
    (coerce ⟨s, eval, .quiet⟩ pending v t path).Makes v ↔ s.Rests v t := by
  have hroot : s.Resolves t := hk t t.mem_nodes
  rw [makes_coerce_iff]
  match t with
  | .top a =>
    rw [coerceForm]
    exact iff_of_true (makes_pure_iff.2 rfl) .top
  | .prim p a =>
    rw [coerceForm, makes_prim_self_iff]
    exact ⟨.prim, fun | .prim h => h⟩
  | .enumRef name d a =>
    obtain ⟨e, he⟩ := Option.isSome_iff_exists.1 hroot
    rw [coerceForm, makes_enum_iff (c := ⟨s, eval, .quiet⟩) he]
    constructor
    · rintro ⟨key, x, hkey, hx, rfl⟩
      obtain rfl := Option.some.inj hkey
      exact .enumRef he hx rfl
    · intro h
      cases h with
      | enumRef he' hx hreal =>
        obtain rfl := Option.some.inj (he.symm.trans he')
        exact ⟨_, _, rfl, hx, by rw [hreal]⟩
  | .literal l a =>
    rw [coerceForm]
    split
    · next h => exact iff_of_true (makes_pure_iff.2 rfl) (.literal h)
    · next h => exact iff_of_false not_makes_fail fun | .literal h' => h h'
  | .classRef name mode dyn a =>
    obtain ⟨d, hd⟩ := Option.isSome_iff_exists.1 hroot
    cases hes : v.entries? with
    | none =>
      refine iff_of_false (fun h => ?_) fun h => ?_
      · obtain ⟨d', es, fs, -, hes', -⟩ := answers_classRef splits_any h
        rw [hes] at hes'
        cases hes'
      · cases h
        cases hes
    | some es =>
      rw [makes_class_self_iff hs hd hes, rests_class_iff hd hes]
      refine and_congr_right fun _ => and_congr_right fun hnames => ?_
      have nd : (Entries.keys es).Nodup := hnames ▸ hs name mode d hd
      refine forall₂_congr fun f hf => forall₂_congr fun x hx => ?_
      have hlt := Value.sizeOf_entry hes hx
      have hknows := hc.fields name mode d hd f hf
      rw [makes_field_self_iff hg (Schema.lookup?_of_mem nd hx) fun hmakes =>
        (succeeds_coerce_iff hc hg _ x f.type _ hknows (s.ready_aliasNames _)).1 hmakes.succeeds]
      exact makes_self_iff hc hg hs _ x f.type _ hknows (s.ready_aliasNames _)
  | .list item a =>
    cases v with
    | list vs =>
      rw [makes_list_self_iff, rests_list_iff]
      refine forall₂_congr fun p hp => ?_
      have hlt := Value.sizeOf_item (v := .list vs) rfl (List.fst_mem_of_mem_zipIdx hp)
      exact makes_self_iff hc hg hs _ p.1 item _ hk.list (s.ready_aliasNames _)
    | _ =>
      refine iff_of_false (fun h => ?_) nofun
      obtain ⟨items, ws, hitems, -⟩ := answers_list splits_any h
      cases hitems
  | .map key value a =>
    cases v with
    | map es =>
      rw [makes_map_self_iff, rests_map_iff]
      refine and_congr_right fun _ => forall₂_congr fun p hp => ?_
      have hlt := Value.sizeOf_entry (v := .map es) rfl hp
      exact makes_self_iff hc hg hs _ p.2 value _ hk.value (s.ready_aliasNames _)
    | _ =>
      refine iff_of_false (fun h => ?_) nofun
      obtain ⟨es, kept, -, hout, -⟩ := answers_map splits_any h
      cases hout
  | .tuple types a =>
    cases v with
    | list vs =>
      rw [makes_tuple_self_iff, rests_tuple_iff]
      refine and_congr_right fun _ => forall₂_congr fun p hp => ?_
      have hmem := List.of_mem_zip (List.fst_mem_of_mem_zipIdx hp)
      have hlt := Value.sizeOf_item (v := .list vs) rfl hmem.1
      exact makes_self_iff hc hg hs _ p.1.1 p.1.2 _ (hk.item hmem.2) (s.ready_aliasNames _)
    | _ =>
      refine iff_of_false (fun h => ?_) nofun
      obtain ⟨items, ws, hitems, -⟩ := answers_tuple splits_any h
      cases hitems
  | .aliasRef name mode a =>
    obtain ⟨e, he⟩ := Option.isSome_iff_exists.1 hroot
    have hmem : name ∈ pending := hr.mem hroot
    have hlt := length_erase_lt hmem
    rw [coerceForm_aliasRef (c := ⟨s, eval, .quiet⟩) he hmem]
    refine (makes_self_iff hc hg hs _ v e path (hc.expansions name e he) (hr.expand hg he)).trans ?_
    refine ⟨.aliasRef he, fun h => ?_⟩
    cases h with
    | aliasRef he' h =>
      obtain rfl := Option.some.inj (he.symm.trans he')
      exact h
  | .arrow ps r a =>
    rw [coerceForm]
    exact iff_of_false not_makes_fail nofun
  | .union ms null a =>
    cases hnull : v.isNull && null.isSome with
    | true =>
      rw [coerceForm, if_pos hnull]
      refine iff_of_true (makes_pure_iff.2 rfl) ?_
      rw [Bool.and_eq_true, Option.isSome_iff_exists] at hnull
      obtain ⟨hv, n, rfl⟩ := hnull
      cases v with
      | null => exact .unionNull
      | _ => cases hv
    | false =>
      rw [rests_union_iff hnull, makes_union_iff hnull
        (fun m hm => coerce_settles hc hg pending v m path (hk.member hm) (hr.member hm))
        fun m hm => succeeds_coerce_iff hc hg pending v m path (hk.member hm) (hr.member hm)]
      refine chosen_congr (fun _ _ => Iff.rfl) fun m hm => ?_
      have hlt := List.sizeOf_lt_of_mem hm
      exact makes_self_iff hc hg hs pending v m path (hk.member hm) (hr.member hm)
termination_by (sizeOf v, pending.length, sizeOf t)
decreasing_by
  · exact Prod.Lex.left _ _ hlt
  · exact Prod.Lex.left _ _ hlt
  · exact Prod.Lex.left _ _ hlt
  · exact Prod.Lex.left _ _ hlt
  · exact Prod.Lex.right _ (Prod.Lex.left _ _ hlt)
  · apply Prod.Lex.right
    apply Prod.Lex.right
    simp only [Ty.union.sizeOf_spec]
    omega

end

end Coercer

end ShapeSchema
