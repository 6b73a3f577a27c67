import ShapeSchema.Convert.Coerce
import ShapeSchema.Proofs.Convert.Checked
import ShapeSchema.Proofs.Lists

/-!
# What coercion answers

A run `Answers` a value if it succeeds with it, its notes being good in a sense that notes pass on
to their parts. One lemma for each form of type says what such an answer consists of:
`answers_classRef`, `answers_list` and their kin.
-/

namespace ShapeSchema

/-! ## Answers -/

section
variable {α β : Type} {good : Notes → Prop}

/-- A run succeeds with a value and good notes. -/
def Checked.Answers (good : Notes → Prop) (x : Checked α) (a : α) : Prop :=
  ∃ n, x.result = .ok (a, n) ∧ good n

namespace Checked.Answers

theorem of_bind {x : Checked α} {f : α → Checked β} {b : β} (h : (x >>= f).Answers good b)
    (hgood : Notes.Splits good) : ∃ a, x.Answers good a ∧ (f a).Answers good b := by
  obtain ⟨n, h, hn⟩ := h
  obtain ⟨a, m, k, hx, hf, rfl⟩ := Checked.ok_bind.1 h
  obtain ⟨hm, hk⟩ := hgood _ _ hn
  exact ⟨a, ⟨m, hx, hm⟩, k, hf, hk⟩

theorem of_pure {a b : α} (h : (Pure.pure a : Checked α).Answers good b) : a = b := by
  obtain ⟨n, h, -⟩ := h
  exact (Checked.ok_pure.1 h).1

theorem of_map {x : Checked α} {f : α → β} {b : β} (h : (f <$> x).Answers good b) :
    ∃ a, x.Answers good a ∧ f a = b := by
  obtain ⟨n, h, hn⟩ := h
  obtain ⟨a, hx, hb⟩ := Checked.ok_map.1 h
  exact ⟨a, ⟨n, hx, hn⟩, hb⟩

theorem of_mapM {f : α → Checked β} {xs : List α} {ys : List β}
    (h : (xs.mapM f).Answers good ys) (hgood : Notes.Splits good) :
    List.Forall₂ (fun x y => (f x).Answers good y) xs ys := by
  obtain ⟨n, h, hn⟩ := h
  exact Checked.forall₂_of_mapM hgood h hn

theorem not_fail {e : Fault} {a : α} : ¬ (Checked.fail e : Checked α).Answers good a := by
  rintro ⟨n, h, -⟩
  cases h

end Checked.Answers

/-- A property that notes have if they consist of notes that have it. -/
structure Notes.Joins (good : Notes → Prop) : Prop where
  empty : good {}
  append : ∀ {a b : Notes}, good a → good b → good (a ++ b)

namespace Checked

theorem answers_pure (hgood : Notes.Joins good) (a : α) :
    (Pure.pure a : Checked α).Answers good a := ⟨{}, rfl, hgood.empty⟩

theorem Answers.bind {x : Checked α} {f : α → Checked β} {a : α} {b : β} (hx : x.Answers good a)
    (hgood : Notes.Joins good) (hf : (f a).Answers good b) : (x >>= f).Answers good b := by
  obtain ⟨m, hm, hgm⟩ := hx
  obtain ⟨n, hn, hgn⟩ := hf
  exact ⟨m ++ n, ok_bind.2 ⟨a, m, n, hm, hn, rfl⟩, hgood.append hgm hgn⟩

theorem Answers.map {x : Checked α} {a : α} (hx : x.Answers good a) (f : α → β) :
    (f <$> x).Answers good (f a) := by
  obtain ⟨m, hm, hgm⟩ := hx
  exact ⟨m, ok_map.2 ⟨a, hm, rfl⟩, hgm⟩

theorem answers_mapM (hgood : Notes.Joins good) {f : α → Checked β} {xs : List α} {ys : List β}
    (h : List.Forall₂ (fun x y => (f x).Answers good y) xs ys) : (xs.mapM f).Answers good ys := by
  induction h with
  | nil => exact answers_pure hgood []
  | cons hx _ ih =>
    rw [List.mapM_cons]
    exact hx.bind hgood (ih.bind hgood (answers_pure hgood _))

end Checked

end

namespace Coercer

variable {c : Coercer} {good : Notes → Prop}

/-! ## Parts of coercion -/

theorem mem_of_findValue? {e : EnumDef} {key : String} {x : EnumValueDef}
    (h : e.findValue? key = some x) : x ∈ e.values := by
  unfold EnumDef.findValue? at h
  rcases Option.or_eq_some_iff.1 h with h | ⟨-, h⟩
  · exact List.mem_of_find?_eq_some h
  · exact List.mem_of_find?_eq_some h

theorem findValue?_of_mem {e : EnumDef} {x : EnumValueDef} (hx : x ∈ e.values) :
    ∃ y, e.findValue? x.name.real = some y ∧ y.name.real = x.name.real := by
  unfold EnumDef.findValue?
  cases h : e.values.find? fun y => y.name.real == x.name.real with
  | none => simpa using List.find?_eq_none.1 h x hx
  | some y => exact ⟨y, rfl, by simpa using List.find?_some h⟩

theorem ok_coerceEnum {name : String} {t : Ty Authored} {v w : Value} {path : Path} {n : Notes}
    (h : (coerceEnum c name t v path).result = .ok (w, n)) :
    ∃ e x, c.schema.findEnum? name = some e ∧ x ∈ e.values ∧ w = .enumOf name x.name.real := by
  unfold coerceEnum at h
  split at h
  · cases h
  next e he =>
  split at h
  · cases h
  next key hkey =>
  split at h
  · cases h
  next x hx =>
  refine ⟨e, x, he, mem_of_findValue? hx, ?_⟩
  simp only at h
  split at h
  · obtain ⟨_, _, _, -, hp, -⟩ := Checked.ok_bind.1 h
    exact (Checked.ok_pure.1 hp).1.symm
  · exact (Checked.ok_pure.1 h).1.symm

theorem ok_firstFit {whenEmpty : Checked Value} {w : Value} {n : Notes}
    (hempty : ∀ w n, whenEmpty.result ≠ .ok (w, n)) :
    ∀ {runs : List (Unit → Checked Value)} {last : Option Fault},
      (firstFit last whenEmpty runs).result = .ok (w, n) →
      ∃ run ∈ runs, (run ()).result = .ok (w, n) := by
  intro runs
  induction runs with
  | nil =>
    intro last h
    cases last with
    | none => exact absurd h (hempty w n)
    | some e => cases h
  | cons run runs ih =>
    intro last h
    unfold firstFit at h
    simp only at h
    split at h
    · obtain ⟨r, hr, hok⟩ := ih h
      exact ⟨r, List.mem_cons_of_mem run hr, hok⟩
    · exact ⟨run, List.mem_cons_self, h⟩

/-- The first of some runs that does not refuse a value answers it. -/
theorem answers_firstFit {v : Value} {whenEmpty : Checked Value} :
    ∀ {runs : List (Unit → Checked Value)} {i : Nat} (hi : i < runs.length) {last : Option Fault},
      (runs[i] ()).Answers good v →
      (∀ j (hj : j < i), ∃ e, (runs[j] ()).result = .error (.convert e)) →
      (firstFit last whenEmpty runs).Answers good v := by
  intro runs
  induction runs with
  | nil => exact fun hi => absurd hi (Nat.not_lt_zero _)
  | cons run runs ih =>
    intro i hi last hgives hbefore
    unfold firstFit
    simp only
    cases i with
    | zero =>
      obtain ⟨n, hn, hgood⟩ := hgives
      rw [List.getElem_cons_zero] at hn
      rw [hn]
      exact ⟨n, hn, hgood⟩
    | succ i =>
      obtain ⟨e, he⟩ := hbefore 0 (Nat.zero_lt_succ i)
      rw [List.getElem_cons_zero] at he
      rw [he]
      have hi' : i < runs.length := Nat.lt_of_succ_lt_succ hi
      obtain ⟨n, hn, hgood⟩ : (firstFit (some (.convert e)) whenEmpty runs).Answers good v :=
        ih hi' hgives fun j hj => hbefore (j + 1) (Nat.succ_lt_succ hj)
      exact ⟨n, hn, hgood⟩

theorem ok_keepOrDrop {sink : Sink} {key : String} {r : Checked Value}
    {kept : Option (String × Value)} {n : Notes}
    (h : (keepOrDrop sink key r).result = .ok (kept, n)) :
    kept = none ∨ ∃ w, kept = some (key, w) ∧ r.result = .ok (w, n) := by
  unfold keepOrDrop at h
  split at h
  · next hr =>
    cases h
    exact .inr ⟨_, rfl, hr⟩
  · obtain ⟨_, _, _, -, h1, -⟩ := Checked.ok_bind.1 h
    obtain ⟨_, _, _, -, h2, -⟩ := Checked.ok_bind.1 h1
    obtain ⟨rfl, -⟩ := Checked.ok_pure.1 h2
    exact .inl rfl
  · cases h

/-! ## Forms of types -/

section
variable {pending : List String} {v w : Value} {path : Path} {a : Authored}

theorem answers_literal {l : Literal}
    (h : (c.coerceForm pending v (.literal l a) path).Answers good w) :
    l.matches v = true ∧ v = w := by
  rw [coerceForm] at h
  split at h
  · next hm => exact ⟨hm, h.of_pure⟩
  · exact absurd h Checked.Answers.not_fail

theorem answers_enumRef {name : String} {dyn : Bool}
    (h : (c.coerceForm pending v (.enumRef name dyn a) path).Answers good w) :
    ∃ e x, c.schema.findEnum? name = some e ∧ x ∈ e.values ∧ w = .enumOf name x.name.real := by
  rw [coerceForm] at h
  obtain ⟨n, h, -⟩ := h
  exact ok_coerceEnum h

/-- What a field of a class becomes: a null if it is missing and may be, else what coercion answers
for its entry. -/
inductive FieldRun (c : Coercer) (good : Notes → Prop) (es : List (String × Value)) (path : Path) :
    FieldDef → String × Value → Prop where
  | null {f : FieldDef} : f.name.lookup? es = none → c.schema.acceptsNull f.type = true →
      FieldRun c good es path f (f.name.real, .null)
  | found {f : FieldDef} {key : String} {v w : Value} : (key, v) ∈ es →
      (c.coerce c.schema.aliasNames v f.type (path.field f.name.real)).Answers good w →
      FieldRun c good es path f (f.name.real, w)

theorem FieldRun.name {es : List (String × Value)} {f : FieldDef} {r : String × Value}
    (h : FieldRun c good es path f r) : r.1 = f.name.real := by
  cases h <;> rfl

theorem answers_classRef (hgood : Notes.Splits good) {name : String} {mode : Mode} {dyn : Bool}
    (h : (c.coerceForm pending v (.classRef name mode dyn a) path).Answers good w) :
    ∃ d es fs, c.schema.findClass? name mode = some d ∧ v.entries? = some es ∧
      List.Forall₂ (FieldRun c good es path) d.fields fs ∧
      (evaluateConstraints (.ofFields name fs) (ownConstraints d a) c.eval c.sink).Answers good () ∧
      w = .ofFields name fs := by
  rw [coerceForm] at h
  split at h
  · exact absurd h Checked.Answers.not_fail
  next d hd =>
  split at h
  · exact absurd h Checked.Answers.not_fail
  next es hes =>
  obtain ⟨fs, hfs, hrest⟩ := h.of_bind hgood
  obtain ⟨_, hown, hp⟩ := hrest.of_bind hgood
  refine ⟨d, es, fs, hd, hes, (hfs.of_mapM hgood).imp fun f r hr => ?_, hown, hp.of_pure.symm⟩
  simp only at hr
  split at hr
  · next hnone =>
    split at hr
    · next hnull =>
      obtain ⟨_, -, hp⟩ := hr.of_bind hgood
      obtain rfl := hp.of_pure
      exact .null hnone hnull
    · exact absurd hr Checked.Answers.not_fail
  · next found hfound =>
    split at hr
    · exact absurd hr Checked.Answers.not_fail
    · obtain ⟨x, hx, hp⟩ := hr.of_bind hgood
      obtain rfl := hp.of_pure
      obtain ⟨key, hkey⟩ := Name.mem_of_lookup? hfound
      exact .found hkey hx

theorem answers_list (hgood : Notes.Splits good) {item : Ty Authored}
    (h : (c.coerceForm pending v (.list item a) path).Answers good w) :
    ∃ items ws, v.items? = some items ∧ w = .list ws ∧ ∀ y ∈ ws, ∃ x ∈ items, ∃ here,
      (c.coerce c.schema.aliasNames x item here).Answers good y := by
  rw [coerceForm] at h
  split at h
  · exact absurd h Checked.Answers.not_fail
  next items hitems =>
  obtain ⟨ws, hws, rfl⟩ := h.of_map
  refine ⟨items, ws, hitems, rfl, fun y hy => ?_⟩
  obtain ⟨p, -, hp⟩ := exists_of_forall₂ (hws.of_mapM hgood) hy
  exact ⟨p.1.val, p.1.property, _, hp⟩

theorem answers_map (hgood : Notes.Splits good) {key value : Ty Authored}
    (h : (c.coerceForm pending v (.map key value a) path).Answers good w) :
    ∃ es kept, v.entries? = some es ∧ w = .ofEntries kept ∧ ∀ p ∈ kept, ∃ q ∈ es, p.1 = q.1 ∧
      (c.coerce c.schema.aliasNames q.2 value (path.key q.1)).Answers good p.2 := by
  rw [coerceForm] at h
  split at h
  · exact absurd h Checked.Answers.not_fail
  next es hes =>
  obtain ⟨kept, hkept, hp⟩ := h.of_bind hgood
  refine ⟨es, kept.filterMap id, hes, hp.of_pure.symm, fun p hp => ?_⟩
  obtain ⟨o, ho, rfl⟩ := List.mem_filterMap.1 hp
  obtain ⟨q, -, n, hq, hn⟩ := exists_of_forall₂ (hkept.of_mapM hgood) ho
  rcases ok_keepOrDrop hq with h0 | ⟨x, h0, hx⟩
  · cases h0
  · cases h0
    exact ⟨q.val, q.property, rfl, n, hx, hn⟩

theorem answers_tuple (hgood : Notes.Splits good) {types : List (Ty Authored)}
    (h : (c.coerceForm pending v (.tuple types a) path).Answers good w) :
    ∃ items ws, v.items? = some items ∧ w = .list ws ∧
      List.Forall₂ (fun y t => ∃ x ∈ items, ∃ here,
        (c.coerce c.schema.aliasNames x t here).Answers good y) ws types := by
  rw [coerceForm] at h
  split at h
  · exact absurd h Checked.Answers.not_fail
  next items hitems =>
  split at h
  · next hlen =>
    obtain ⟨ws, hws, rfl⟩ := h.of_map
    refine ⟨items, ws, hitems, rfl, List.Forall₂.flip ?_⟩
    -- the numbered pairs of items and types are as many as the types
    have htypes : ((items.attach.zip types).zipIdx).map (fun p => p.1.2) = types := by
      have hmap := congrArg (List.map Prod.snd) (List.zipIdx_map_fst 0 (items.attach.zip types))
      rw [List.map_map] at hmap
      exact hmap.trans (List.map_snd_zip (Nat.le_of_eq (List.length_attach.trans hlen).symm))
    rw [← htypes, List.forall₂_map_left_iff]
    exact (hws.of_mapM hgood).imp fun p y hp => ⟨p.1.1.val, p.1.1.property, _, hp⟩
  · exact absurd h Checked.Answers.not_fail

theorem answers_aliasRef {name : String} {mode : Mode}
    (h : (c.coerceForm pending v (.aliasRef name mode a) path).Answers good w) :
    ∃ e, c.schema.expand? name = some e ∧ name ∈ pending ∧
      (c.coerce (pending.erase name) v e path).Answers good w := by
  rw [coerceForm] at h
  split at h
  · exact absurd h Checked.Answers.not_fail
  next e he =>
  split at h
  · next hmem => exact ⟨e, he, hmem, h⟩
  · exact absurd h Checked.Answers.not_fail

theorem answers_union (hgood : Notes.Splits good) {ms : List (Ty Authored)} {null : Option Authored}
    (h : (c.coerceForm pending v (.union ms null a) path).Answers good w) :
    (w = .null ∧ ∃ n, null = some n) ∨
      ∃ m ∈ ms, (c.coerce pending v m path).Answers good w := by
  rw [coerceForm] at h
  split at h
  · next hnull =>
    obtain rfl := h.of_pure
    rw [Bool.and_eq_true, Option.isSome_iff_exists] at hnull
    obtain ⟨hv, n, rfl⟩ := hnull
    refine .inl ⟨?_, n, rfl⟩
    cases v with
    | null => rfl
    | _ => cases hv
  · obtain ⟨n, h, hn⟩ := h
    obtain ⟨run, hrun, hok⟩ := ok_firstFit (fun w n h => by cases h) h
    obtain ⟨m, -, rfl⟩ := List.mem_map.1 hrun
    obtain ⟨x, hx, hrest⟩ := Checked.Answers.of_bind ⟨n, hok, hn⟩ hgood
    have hxw : x = w := by
      simp only at hrest
      split at hrest
      · obtain ⟨_, -, hp⟩ := hrest.of_bind hgood
        exact hp.of_pure
      · exact hrest.of_pure
    subst hxw
    exact .inr ⟨m.1.val, m.1.property, hx⟩

end

end Coercer

end ShapeSchema
