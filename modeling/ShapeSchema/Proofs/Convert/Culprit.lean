import ShapeSchema.Proofs.Convert.Alike
import ShapeSchema.Proofs.Convert.Forms

/-!
# Coercion errors point at the culprit

Whatever coercion reports of a value, the reported path leads to the part that is to blame: the
error that ends a run, and the errors that are written down where an entry of a map is dropped
(`Coercer.blames_run`). A path is followed along the type (`Schema.Leads`), since the names of
fields are those of the class that is met.

Every run is judged by what it `Tells`: all the errors it reports satisfy a property. Each form of
type enters its parts by one step and hands on what the runs of the parts tell
(`Schema.Blames.enter`).
-/

namespace ShapeSchema

/-! ## Following a path -/

/-- A name that is not found is there in neither form. -/
theorem Name.absent_of_lookup? {α : Type} {n : Name} {es : List (String × α)}
    (h : n.lookup? es = none) :
    Entries.find? es n.real = none ∧ Entries.find? es n.rendered = none := by
  obtain ⟨hreal, hshown⟩ := Option.or_eq_none_iff.1 h
  refine ⟨hreal, ?_⟩
  unfold rendered
  cases hn : n.shown with
  | none => exact hreal
  | some shown =>
    rw [hn] at hshown
    exact hshown

namespace Schema

/-- One step into a value along its type, with the segments that it adds to a path. A field is found
under its real name or, if there is no such key, under its rendered one. What an alias stands for
and the members of a union are met in place. -/
inductive Enters (s : Schema) :
    Value → Ty Authored → List Segment → Value → Ty Authored → Prop where
  | field {v x : Value} {name : String} {mode : Mode} {dyn : Bool} {a : Authored} {d : ClassDef}
      {f : FieldDef} {es : List (String × Value)} : s.findClass? name mode = some d →
      f ∈ d.fields → v.entries? = some es → f.name.lookup? es = some x →
      Enters s v (.classRef name mode dyn a) [.field f.name.real] x f.type
  | item {v x : Value} {vs : List Value} {i : Nat} {t : Ty Authored} {a : Authored} :
      v.items? = some vs → vs[i]? = some x → Enters s v (.list t a) [.index i] x t
  | component {v x : Value} {vs : List Value} {i : Nat} {ts : List (Ty Authored)} {t : Ty Authored}
      {a : Authored} : v.items? = some vs → vs[i]? = some x → ts[i]? = some t →
      Enters s v (.tuple ts a) [.index i] x t
  | entry {v x : Value} {es : List (String × Value)} {key : String} {k t : Ty Authored}
      {a : Authored} : v.entries? = some es → (key, x) ∈ es → Enters s v (.map k t a) [.key key] x t
  | alias {v : Value} {name : String} {mode : Mode} {a : Authored} {t : Ty Authored} :
      s.expand? name = some t → Enters s v (.aliasRef name mode a) [] v t
  | member {v : Value} {ms : List (Ty Authored)} {null : Option Authored} {a : Authored}
      {t : Ty Authored} : t ∈ ms → Enters s v (.union ms null a) [] v t

/-- The segments lead from a value along its type to a part of it. -/
inductive Leads (s : Schema) :
    List Segment → Value → Ty Authored → Value → Ty Authored → Prop where
  | here (v : Value) (t : Ty Authored) : Leads s [] v t v t
  | step {segs rest : List Segment} {v x u : Value} {t t' t'' : Ty Authored} :
      s.Enters v t segs x t' → Leads s rest x t' u t'' → Leads s (segs ++ rest) v t u t''

/-- A class or map value has a field of its class under neither of the field's names. -/
def Lacks (s : Schema) (v : Value) (t : Ty Authored) (n : Name) : Prop :=
  ∃ name mode dyn a d es, t = .classRef name mode dyn a ∧ s.findClass? name mode = some d ∧
    (∃ f ∈ d.fields, f.name = n) ∧ v.entries? = some es ∧ Entries.find? es n.real = none ∧
    Entries.find? es n.rendered = none

/-- The error's path goes on from `path` to what is to blame: to a part of the value that the error
describes, or to a missing field of a part. -/
inductive Blames (s : Schema) (v : Value) (t : Ty Authored) (path : Path) (e : ConvertError) :
    Prop where
  | part (segs : List Segment) (u : Value) (t' : Ty Authored) :
      e.path.segments = path.segments ++ segs → s.Leads segs v t u t' → u.describe = e.got →
      Blames s v t path e
  | missing (segs : List Segment) (n : Name) (u : Value) (t' : Ty Authored) :
      e.path.segments = path.segments ++ (segs ++ [.field n.real]) → s.Leads segs v t u t' →
      s.Lacks u t' n → e.got = "<missing>" → Blames s v t path e

variable {s : Schema} {v x : Value} {t t' : Ty Authored} {path : Path} {e : ConvertError}

theorem blames_here (h : v.describe = e.got) (hpath : e.path = path) : s.Blames v t path e :=
  .part [] v t (by rw [hpath, List.append_nil]) (.here v t) h

/-- What is to blame in a part is to blame in the whole, further along the path. -/
theorem Blames.enter {segs : List Segment} (hstep : s.Enters v t segs x t')
    (h : s.Blames x t' ⟨path.segments ++ segs⟩ e) : s.Blames v t path e := by
  cases h with
  | part rest u t'' hpath hleads hgot =>
    exact .part (segs ++ rest) u t'' (by rw [hpath, List.append_assoc]) (.step hstep hleads) hgot
  | missing rest n u t'' hpath hleads hlacks hgot =>
    exact .missing (segs ++ rest) n u t'' (by simp [hpath]) (.step hstep hleads) hlacks hgot

/-- Types and aliases that are met in place leave the path as it is. -/
theorem Blames.enter_here (hstep : s.Enters v t [] x t') (h : s.Blames x t' path e) :
    s.Blames v t path e := by
  refine .enter hstep ?_
  rwa [List.append_nil]

end Schema

/-! ## What a run tells -/

/-- The explanation of a map entry that was dropped because of an error. -/
def ConvertError.dropped (e : ConvertError) : Explanation :=
  ⟨e.path.text, "dropped map entry: " ++ e.message⟩

namespace Checked

variable {α β : Type} {P Q : ConvertError → Prop}

/-- The error that ends the run satisfies a property, as do all errors because of which entries were
dropped on the way. -/
structure Tells (P : ConvertError → Prop) (x : Checked α) : Prop where
  ends : ∀ e, x.result = .error (.convert e) → P e
  explains : ∀ a n, x.result = .ok (a, n) → ∀ m ∈ n.explanations, ∃ e, m = e.dropped ∧ P e

theorem Tells.imp {x : Checked α} (h : x.Tells P) (hPQ : ∀ e, P e → Q e) : x.Tells Q where
  ends e he := hPQ e (h.ends e he)
  explains a n hn m hm := by
    obtain ⟨e, hme, he⟩ := h.explains a n hn m hm
    exact ⟨e, hme, hPQ e he⟩

theorem Tells.of_result {x y : Checked α} (h : x.Tells P) (hy : y.result = x.result) :
    y.Tells P where
  ends e he := h.ends e (hy ▸ he)
  explains a n hn := h.explains a n (hy ▸ hn)

theorem tells_pure (a : α) : (Pure.pure a : Checked α).Tells P where
  ends e he := by cases he
  explains b n hn m hm := by
    obtain ⟨-, rfl⟩ := ok_pure.1 hn
    cases hm

theorem tells_note {n : Notes} (h : ∀ m ∈ n.explanations, ∃ e, m = e.dropped ∧ P e) :
    (note n).Tells P where
  ends e he := by cases he
  explains a k hk := by
    cases hk
    exact h

theorem tells_flag (f : Flag) : (flag f).Tells P := tells_note (by simp)

theorem tells_fail {f : Fault} (h : ∀ e, f = .convert e → P e) : (fail f : Checked α).Tells P where
  ends e he := h e (Except.error.inj he)
  explains a n hn := by cases hn

theorem Tells.bind {x : Checked α} {f : α → Checked β} (hx : x.Tells P)
    (hf : ∀ a, (f a).Tells P) : (x >>= f).Tells P where
  ends e he := by
    change (Checked.bind x f).result = _ at he
    unfold Checked.bind at he
    split at he
    · next e' hxe =>
      obtain rfl := Except.error.inj he
      exact hx.ends e hxe
    · next a n hxa =>
      cases hy : (f a).result with
      | error e' =>
        simp only [hy, Except.map] at he
        obtain rfl := Except.error.inj he
        exact (hf a).ends e hy
      | ok p => simp [hy, Except.map] at he
  explains b n hn m hm := by
    obtain ⟨a, k, l, hxa, hy, rfl⟩ := ok_bind.1 hn
    rcases List.mem_append.1 hm with hm | hm
    · exact hx.explains a k hxa m hm
    · exact (hf a).explains b l hy m hm

theorem Tells.map {x : Checked α} (hx : x.Tells P) (f : α → β) : (f <$> x).Tells P :=
  hx.bind fun a => tells_pure (f a)

theorem tells_mapM {f : α → Checked β} {xs : List α} (h : ∀ x ∈ xs, (f x).Tells P) :
    (xs.mapM f).Tells P := by
  induction xs with
  | nil => exact tells_pure []
  | cons x xs ih =>
    rw [List.forall_mem_cons] at h
    rw [List.mapM_cons]
    exact h.1.bind fun y => (ih h.2).bind fun ys => tells_pure (y :: ys)

theorem tells_forM {f : α → Checked Unit} (h : ∀ x, (f x).Tells P) (xs : List α) :
    (xs.forM f).Tells P := by
  induction xs with
  | nil => exact tells_pure ()
  | cons x xs ih => exact (h x).bind fun _ => ih

theorem tells_report (sink : Sink) (event : Event) : (sink.report event).Tells P := by
  unfold Sink.report
  split
  · exact ⟨by simp, by simp⟩
  · exact tells_fail (by simp)

end Checked

open Checked

/-- A constraint that fails is no misfit, and no entry is dropped because of it. -/
theorem tells_evaluate {P : ConvertError → Prop} (v : Value) (cs : List Constraint)
    (eval : Evaluator) (sink : Sink) : (evaluateConstraints v cs eval sink).Tells P := by
  have recorded (c : Constraint) (passed : Bool) : (note (c.record passed)).Tells P := by
    have hnone : (c.record passed).explanations = [] := by
      obtain ⟨level, label, expression⟩ := c
      cases level <;> cases passed <;> rfl
    refine tells_note fun m hm => ?_
    rw [hnone] at hm
    cases hm
  refine tells_forM (fun c => ?_) cs
  unfold Constraint.evaluate
  split
  · exact recorded c _
  · exact (tells_report _ _).bind fun _ => recorded c false

namespace Coercer

variable {P : ConvertError → Prop}

/-- An entry that is dropped is explained by the error because of which it is. -/
theorem tells_keepOrDrop {r : Checked Value} (h : r.Tells P) (sink : Sink) (key : String) :
    (keepOrDrop sink key r).Tells P := by
  unfold keepOrDrop
  split
  · next w n hok =>
    refine ⟨fun _ he => (nomatch he), fun a k hk => ?_⟩
    cases hk
    exact h.explains w n hok
  · next e he =>
    refine Tells.of_result (.bind (tells_note ?_) fun _ => (tells_report _ _).bind fun _ =>
      tells_pure none) rfl
    intro m hm
    exact ⟨e, List.mem_singleton.1 hm, h.ends e he⟩
  · next f hconvert hf =>
    refine ⟨fun e he => ?_, fun a k hk => nomatch hk⟩
    exact (hconvert e (Except.error.inj he)).elim

/-- The error of a run that was tried stands at most until the next one. -/
theorem tells_firstFit {whenEmpty : Checked Value} (hempty : whenEmpty.Tells P)
    {runs : List (Unit → Checked Value)} (h : ∀ run ∈ runs, (run ()).Tells P) {last : Option Fault}
    (hlast : ∀ e, last = some (.convert e) → P e) : (firstFit last whenEmpty runs).Tells P := by
  induction runs generalizing last with
  | nil =>
    unfold firstFit
    split
    · exact tells_fail fun e he => hlast e (congrArg some he)
    · exact hempty
  | cons run runs ih =>
    rw [List.forall_mem_cons] at h
    by_cases hmisfit : ∃ e, (run ()).result = .error (.convert e)
    · obtain ⟨e, he⟩ := hmisfit
      have rest : (firstFit (some (.convert e)) whenEmpty runs).Tells P := ih h.2 fun e' he' => by
        obtain rfl : e = e' := by simpa using he'
        exact h.1.ends e he
      exact rest.of_result (firstFit_of_misfit he)
    · rw [firstFit_of_not_misfit (not_exists.1 hmisfit)]
      exact h.1

variable {c : Coercer} {v : Value} {t : Ty Authored} {path : Path}

theorem tells_misfit {α : Type} (expected : String) (m : Mismatch) :
    (misfit path expected v m : Checked α).Tells (c.schema.Blames v t path) := by
  refine tells_fail fun e he => ?_
  cases he
  exact Schema.blames_here rfl rfl

theorem tells_broken {α : Type} (b : Breach) : (broken b path : Checked α).Tells P :=
  tells_fail fun _ he => nomatch he

theorem tells_coercePrim (p : Prim) (t' : Ty Authored) :
    (coercePrim p t' v path).Tells (c.schema.Blames v t path) := by
  unfold coercePrim
  split
  case h_4 => exact (tells_flag _).bind fun _ => tells_pure _
  case h_7 =>
    split
    · exact tells_pure _
    · exact tells_misfit _ _
  case h_8 => exact tells_misfit _ _
  all_goals exact tells_pure _

theorem tells_coerceEnum (name : String) (t' : Ty Authored) :
    (c.coerceEnum name t' v path).Tells (c.schema.Blames v t path) := by
  unfold coerceEnum
  split
  · exact tells_broken _
  split
  · exact tells_misfit _ _
  split
  · exact tells_misfit _ _
  dsimp only
  split
  · exact (tells_flag _).bind fun _ => tells_pure _
  · exact tells_pure _

/-! ## What coercion tells -/

/-- A missing field is missing under both names; one that is there is to blame itself or has a part
that is. -/
theorem tells_coerceField {name : String} {mode : Mode} {dyn : Bool} {a : Authored} {d : ClassDef}
    {f : FieldDef} {es : List (String × Value)} (hd : c.schema.findClass? name mode = some d)
    (hf : f ∈ d.fields) (hes : v.entries? = some es)
    (h : ∀ x, f.name.lookup? es = some x → (c.coerce c.schema.aliasNames x f.type
      (path.field f.name.real)).Tells (c.schema.Blames x f.type (path.field f.name.real))) :
    (c.coerceField es path f).Tells (c.schema.Blames v (.classRef name mode dyn a) path) := by
  unfold coerceField
  cases hx : f.name.lookup? es with
  | none =>
    dsimp only
    split
    · exact (tells_flag _).bind fun _ => tells_pure _
    · refine tells_fail fun e he => ?_
      cases he
      exact .missing [] f.name v _ rfl (.here _ _)
        ⟨name, mode, dyn, a, d, es, rfl, hd, ⟨f, hf, rfl⟩, hes, Name.absent_of_lookup? hx⟩ rfl
  | some x =>
    have hstep : c.schema.Enters v (.classRef name mode dyn a) [.field f.name.real] x f.type :=
      .field hd hf hes hx
    dsimp only
    split
    · next hnull =>
      refine tells_fail fun e he => ?_
      cases he
      have hdescribe : x.describe = "null" := by
        cases x with
        | null => rfl
        | _ => cases hnull
      exact .enter hstep (Schema.blames_here hdescribe rfl)
    · exact ((h x hx).imp fun e he => he.enter hstep).bind fun _ => tells_pure _

mutual

theorem coerce_tells (pending : List String) (v : Value) (t : Ty Authored) (path : Path) :
    (c.coerce pending v t path).Tells (c.schema.Blames v t path) := by
  rw [coerce]
  exact (coerceForm_tells pending v t path).bind fun out =>
    (tells_evaluate _ _ _ _).bind fun _ => tells_pure out
termination_by (sizeOf v, pending.length, sizeOf t, 1)

theorem coerceForm_tells (pending : List String) (v : Value) (t : Ty Authored) (path : Path) :
    (c.coerceForm pending v t path).Tells (c.schema.Blames v t path) := by
  match t with
  | .top a =>
    rw [coerceForm]
    exact tells_pure v
  | .prim p a =>
    rw [coerceForm]
    exact tells_coercePrim _ _
  | .literal l a =>
    rw [coerceForm]
    split
    · exact tells_pure v
    · exact tells_misfit _ _
  | .enumRef name d a =>
    rw [coerceForm]
    exact tells_coerceEnum _ _
  | .classRef name mode dyn a =>
    cases hd : c.schema.findClass? name mode with
    | none =>
      rw [coerceForm]
      simp only [hd]
      exact tells_broken _
    | some d =>
      cases hes : v.entries? with
      | none =>
        rw [coerceForm_classRef_misfit hd hes]
        exact tells_misfit _ _
      | some es =>
        rw [coerceForm_classRef hd hes]
        refine (tells_mapM fun f hf => tells_coerceField hd hf hes fun x hx => ?_).bind fun fs =>
          (tells_evaluate _ _ _ _).bind fun _ => tells_pure _
        obtain ⟨k, hk⟩ := Name.mem_of_lookup? hx
        have hlt := Value.sizeOf_entry hes hk
        exact coerce_tells _ x f.type _
  | .list item a =>
    cases hvs : v.items? with
    | none =>
      rw [coerceForm_list_misfit hvs]
      exact tells_misfit _ _
    | some vs =>
      rw [coerceForm_list hvs]
      refine (tells_mapM fun p hp => ?_).map _
      have hitem : vs[p.2]? = some p.1 := List.mem_zipIdx_iff_getElem?.1 hp
      have hlt := Value.sizeOf_item hvs (List.mem_of_getElem? hitem)
      exact (coerce_tells _ p.1 item _).imp fun e he => he.enter (.item hvs hitem)
  | .map key value a =>
    cases hes : v.entries? with
    | none =>
      rw [coerceForm_map_misfit hes]
      exact tells_misfit _ _
    | some es =>
      rw [coerceForm_map hes]
      refine (tells_mapM fun p hp => tells_keepOrDrop ?_ _ _).bind fun _ => tells_pure _
      have hlt := Value.sizeOf_entry hes hp
      exact (coerce_tells _ p.2 value _).imp fun e he => he.enter (.entry hes hp)
  | .tuple types a =>
    by_cases hvs : ∃ vs, v.items? = some vs ∧ vs.length = types.length
    · obtain ⟨vs, hvs, hlen⟩ := hvs
      rw [coerceForm_tuple hvs hlen]
      refine (tells_mapM fun p hp => ?_).map _
      obtain ⟨hitem, htype⟩ := List.getElem?_zip_eq_some.1 (List.mem_zipIdx_iff_getElem?.1 hp)
      have hlt := Value.sizeOf_item hvs (List.mem_of_getElem? hitem)
      exact (coerce_tells _ p.1.1 p.1.2 _).imp fun e he => he.enter (.component hvs hitem htype)
    · have hmisfit : v.items? = none ∨ ∃ vs, v.items? = some vs ∧ vs.length ≠ types.length := by
        cases hitems : v.items? with
        | none => exact .inl rfl
        | some vs => exact .inr ⟨vs, rfl, fun hlen => hvs ⟨vs, hitems, hlen⟩⟩
      rw [coerceForm_tuple_misfit hmisfit]
      exact tells_misfit _ _
  | .aliasRef name mode a =>
    rw [coerceForm]
    split
    · exact tells_broken _
    next e he =>
    split
    · next hmem =>
      have hlt := length_erase_lt hmem
      exact (coerce_tells _ v e path).imp fun _ h => h.enter_here (.alias he)
    · exact tells_fail fun _ he => nomatch he
  | .arrow ps r a =>
    rw [coerceForm]
    exact tells_misfit _ _
  | .union ms null a =>
    cases hnull : v.isNull && null.isSome with
    | true =>
      rw [coerceForm, if_pos hnull]
      exact tells_pure v
    | false =>
      rw [coerceForm_union hnull]
      refine tells_firstFit (tells_misfit _ _) (fun run hrun => ?_) (fun e he => nomatch he)
      obtain ⟨m, hm, rfl⟩ := List.mem_map.1 hrun
      have hmember := List.fst_mem_of_mem_zipIdx hm
      have hlt := List.sizeOf_lt_of_mem hmember
      refine ((coerce_tells pending v m.1 path).imp fun _ h =>
        h.enter_here (.member hmember)).bind fun out => ?_
      dsimp only
      split
      · exact (tells_flag _).bind fun _ => tells_pure out
      · exact tells_pure out
termination_by (sizeOf v, pending.length, sizeOf t, 0)
decreasing_by
  · exact Prod.Lex.left _ _ hlt
  · exact Prod.Lex.left _ _ hlt
  · exact Prod.Lex.left _ _ hlt
  · exact Prod.Lex.left _ _ hlt
  · exact Prod.Lex.right _ (Prod.Lex.left _ _ hlt)
  · apply Prod.Lex.right
    apply Prod.Lex.right
    apply Prod.Lex.left
    simp only [Ty.union.sizeOf_spec]
    omega

end

/-- Errors point at the culprit: the path of an error that ends a run leads from where the run began
to a part of the value that the error describes or that lacks the missing field. So do the paths of
the errors because of which entries of maps were dropped. -/
theorem blames_run (c : Coercer) (v : Value) (t : Ty Authored) (path : Path) :
    (∀ e, (c.run v t path).result = .error (.convert e) → c.schema.Blames v t path e) ∧
    ∀ w notes, (c.run v t path).result = .ok (w, notes) → ∀ m ∈ notes.explanations,
      ∃ e, m = e.dropped ∧ c.schema.Blames v t path e := by
  have told := coerce_tells (c := c) c.schema.aliasNames v t path
  exact ⟨told.ends, told.explains⟩

/-- A class with a renamed field, and lists of names and of that class. -/
def crewCoercer : Coercer where
  schema := {
    target := .list (.union [.prim .string {}, .classRef "Sailor" .complete false {}] none {}) {}
    enums := []
    classes := [{
      name := ⟨"Sailor", none⟩
      fields := [⟨⟨"age", some "years"⟩, .prim .int {}, none, false⟩] }]
    recursiveClasses := []
    aliases := [] }
  eval _ _ := .ok true

/-- A name and a sailor. -/
def crew (fields : List (String × Value)) : Value := .list [.text "Ann", .classOf "Sailor" fields]

/-- Sailors by name. -/
def rollType : Ty Authored := .map (.prim .string {}) (.classRef "Sailor" .complete false {}) {}

def roll : Value := .map [("Ann", .classOf "Sailor" [("years", .text "old")])]

theorem run_crew_misfit : (crewCoercer.run (crew [("years", .text "old")])
    crewCoercer.schema.target .root).result =
      .error (.convert ⟨(Path.root.index 1).field "age", "int", "string \"old\"", .wrongKind⟩) := by
  simp [run, crewCoercer, crew, coerce, coerceForm, Schema.findClass?, Schema.registered?,
    Value.entries?, Value.items?, Name.lookup?, Entries.find?, firstFit, coercePrim]
  rfl

theorem run_crew_missing : (crewCoercer.run (crew [("rank", .null)])
    crewCoercer.schema.target .root).result =
      .error (.convert (.missing ((Path.root.index 1).field "age") "int")) := by
  simp [run, crewCoercer, crew, coerce, coerceForm, Schema.findClass?, Schema.registered?,
    Value.entries?, Value.items?, Name.lookup?, Entries.find?, Schema.acceptsNull,
    Schema.acceptsNullAmong, firstFit, coercePrim]
  rfl

theorem run_roll : (crewCoercer.run roll rollType .root).result = .ok (.map [],
    { explanations := [ConvertError.dropped
      ⟨(Path.root.key "Ann").field "age", "int", "string \"old\"", .wrongKind⟩] }) := by
  simp [run, crewCoercer, roll, rollType, coerce, coerceForm, Schema.findClass?,
    Schema.registered?, Value.entries?, Name.lookup?, Entries.find?, coercePrim]
  rfl

/-- An age that stands under the field's rendered name, an age that is missing, and an age because
of which an entry is dropped. -/
theorem blames_run_crew :
    (∃ e, (crewCoercer.run (crew [("years", .text "old")]) crewCoercer.schema.target
        .root).result = .error (.convert e) ∧
      crewCoercer.schema.Blames (crew [("years", .text "old")]) crewCoercer.schema.target .root e) ∧
    (∃ e, (crewCoercer.run (crew [("rank", .null)]) crewCoercer.schema.target .root).result
        = .error (.convert e) ∧ e.got = "<missing>" ∧
      crewCoercer.schema.Blames (crew [("rank", .null)]) crewCoercer.schema.target .root e) ∧
    ∃ notes, (crewCoercer.run roll rollType .root).result = .ok (.map [], notes) ∧
      notes.explanations ≠ [] ∧ ∀ m ∈ notes.explanations,
        ∃ e, m = e.dropped ∧ crewCoercer.schema.Blames roll rollType .root e :=
  ⟨⟨_, run_crew_misfit, (blames_run crewCoercer _ _ _).1 _ run_crew_misfit⟩,
    ⟨_, run_crew_missing, rfl, (blames_run crewCoercer _ _ _).1 _ run_crew_missing⟩,
    _, run_roll, List.cons_ne_nil _ _, (blames_run crewCoercer roll rollType .root).2 _ _ run_roll⟩

end Coercer

end ShapeSchema
