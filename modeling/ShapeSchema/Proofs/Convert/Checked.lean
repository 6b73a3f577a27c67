import ShapeSchema.Convert.Constraint
import ShapeSchema.Proofs.Lists

/-!
# Runs that succeed

What a successful run did can be read off its parts: `ok_bind` for a sequence of two runs and
`forall₂_of_mapM` for a run over a list. Notes are only ever added, so a property that notes pass on
to their parts (`Notes.Splits`) holds of the notes of every part.
-/

namespace ShapeSchema

/-! ## Notes -/

namespace Notes

@[simp] theorem append_checks (a b : Notes) : (a ++ b).checks = a.checks ++ b.checks := rfl

@[simp] theorem append_failedAsserts (a b : Notes) :
    (a ++ b).failedAsserts = a.failedAsserts ++ b.failedAsserts := rfl

@[simp] theorem append_flags (a b : Notes) : (a ++ b).flags = a.flags ++ b.flags := rfl

@[simp] theorem append_explanations (a b : Notes) :
    (a ++ b).explanations = a.explanations ++ b.explanations := rfl

theorem append_empty (a : Notes) : a ++ ({} : Notes) = a := by
  show Notes.mk _ _ _ _ = a
  simp

theorem append_assoc (a b c : Notes) : a ++ b ++ c = a ++ (b ++ c) := by
  show Notes.mk _ _ _ _ = Notes.mk _ _ _ _
  simp

/-- A property that notes pass on to the notes they consist of. -/
def Splits (good : Notes → Prop) : Prop := ∀ a b, good (a ++ b) → good a ∧ good b

end Notes

/-! ## Sequences -/

namespace Checked

variable {α β : Type}

theorem ok_bind {x : Checked α} {f : α → Checked β} {b : β} {n : Notes} :
    (x >>= f).result = .ok (b, n) ↔ ∃ a m k, x.result = .ok (a, m) ∧ (f a).result = .ok (b, k) ∧
      n = m ++ k := by
  show (Checked.bind x f).result = _ ↔ _
  unfold Checked.bind
  cases hx : x.result with
  | error e => simp
  | ok p =>
    obtain ⟨a, m⟩ := p
    cases hy : (f a).result with
    | error e => simp [hy, Except.map]
    | ok q =>
      obtain ⟨c, k⟩ := q
      simp only [hy, Except.map, Except.ok.injEq, Prod.mk.injEq]
      constructor
      · rintro ⟨rfl, rfl⟩
        exact ⟨a, m, k, ⟨rfl, rfl⟩, hy, rfl⟩
      · rintro ⟨a', m', k', ⟨rfl, rfl⟩, hy', rfl⟩
        rw [hy] at hy'
        cases hy'
        exact ⟨rfl, rfl⟩

theorem ok_pure {a b : α} {n : Notes} :
    (Pure.pure a : Checked α).result = .ok (b, n) ↔ a = b ∧ ({} : Notes) = n := by
  show Except.ok (a, ({} : Notes)) = .ok (b, n) ↔ _
  simp

theorem ok_map {x : Checked α} {f : α → β} {b : β} {n : Notes} :
    (f <$> x).result = .ok (b, n) ↔ ∃ a, x.result = .ok (a, n) ∧ f a = b := by
  show (x >>= fun a => (Pure.pure (f a) : Checked β)).result = _ ↔ _
  rw [ok_bind]
  constructor
  · rintro ⟨a, m, k, hx, hp, rfl⟩
    obtain ⟨rfl, rfl⟩ := ok_pure.1 hp
    exact ⟨a, by rw [hx, Notes.append_empty], rfl⟩
  · rintro ⟨a, hx, rfl⟩
    exact ⟨a, n, {}, hx, ok_pure.2 ⟨rfl, rfl⟩, (Notes.append_empty n).symm⟩

@[ext] theorem ext {x y : Checked α} (he : x.events = y.events) (hr : x.result = y.result) :
    x = y := by
  cases x
  cases y
  simp_all

theorem pure_bind (a : α) (f : α → Checked β) : (Pure.pure a >>= f) = f a := by
  apply ext
  · rfl
  · show (f a).result.map _ = _
    cases h : (f a).result <;> rfl

theorem map_id (x : Checked α) : id <$> x = x := by
  show Checked.bind x (fun a => Checked.pure (id a)) = x
  unfold Checked.bind
  cases hx : x.result with
  | error e => exact ext rfl hx.symm
  | ok p =>
    refine ext (List.append_nil x.events) ?_
    show Except.ok (p.1, p.2 ++ ({} : Notes)) = x.result
    rw [Notes.append_empty, hx]

theorem bind_assoc {γ : Type} (x : Checked α) (f : α → Checked β) (g : β → Checked γ) :
    x >>= f >>= g = x >>= fun a => f a >>= g := by
  show Checked.bind (Checked.bind x f) g = Checked.bind x fun a => Checked.bind (f a) g
  unfold Checked.bind
  cases hx : x.result with
  | error e => rfl
  | ok p =>
    cases hf : (f p.1).result with
    | error e => simp [hf, Except.map]
    | ok q =>
      cases hg : (g q.1).result with
      | error e => simp [hf, hg, Except.map]
      | ok r => simp [hf, hg, Except.map, Notes.append_assoc]

instance : LawfulMonad Checked := LawfulMonad.mk' Checked map_id pure_bind bind_assoc

/-! ## Runs over lists -/

/-- What a successful run over a list did to each item. -/
theorem forall₂_of_mapM {good : Notes → Prop} (hgood : Notes.Splits good) {f : α → Checked β} :
    ∀ {xs : List α} {ys : List β} {n : Notes}, (xs.mapM f).result = .ok (ys, n) → good n →
      List.Forall₂ (fun x y => ∃ m, (f x).result = .ok (y, m) ∧ good m) xs ys := by
  intro xs
  induction xs with
  | nil =>
    intro ys n h _
    rw [List.mapM_nil] at h
    obtain ⟨rfl, -⟩ := ok_pure.1 h
    exact .nil
  | cons x xs ih =>
    intro ys n h hn
    rw [List.mapM_cons] at h
    obtain ⟨y, m, k, hx, hrest, rfl⟩ := ok_bind.1 h
    obtain ⟨ys', m', k', hxs, hp, rfl⟩ := ok_bind.1 hrest
    obtain ⟨rfl, rfl⟩ := ok_pure.1 hp
    obtain ⟨hm, hk⟩ := hgood _ _ hn
    exact .cons ⟨m, hx, hm⟩ (ih hxs (hgood _ _ hk).1)

theorem forall_of_forM {good : Notes → Prop} (hgood : Notes.Splits good) {f : α → Checked Unit} :
    ∀ {xs : List α} {n : Notes}, (xs.forM f).result = .ok ((), n) → good n →
      ∀ x ∈ xs, ∃ m, (f x).result = .ok ((), m) ∧ good m := by
  intro xs
  induction xs with
  | nil => simp
  | cons x xs ih =>
    intro n h hn y hy
    obtain ⟨_, m, k, hx, hrest, rfl⟩ := ok_bind.1 h
    obtain ⟨hm, hk⟩ := hgood _ _ hn
    rcases List.mem_cons.1 hy with rfl | hy
    · exact ⟨m, hx, hm⟩
    · exact ih hrest hk y hy

end Checked

/-! ## Constraints -/

/-- Every assert among some constraints passes on a value. -/
def AssertsPass (eval : Evaluator) (cs : List Constraint) (v : Value) : Prop :=
  ∀ c ∈ cs, c.level = .assert → eval c.expression v.plain = .ok true

theorem splits_failedAsserts : Notes.Splits fun n => n.failedAsserts = [] := fun _ _ h =>
  List.append_eq_nil_iff.1 h

/-- Constraints of which none has failed as an assert. -/
theorem assertsPass_of_evaluate {v : Value} {cs : List Constraint} {eval : Evaluator} {sink : Sink}
    {n : Notes} (h : (evaluateConstraints v cs eval sink).result = .ok ((), n))
    (hn : n.failedAsserts = []) : AssertsPass eval cs v := by
  intro c hc hassert
  obtain ⟨m, hm, hfailed⟩ := Checked.forall_of_forM splits_failedAsserts h hn c hc
  unfold Constraint.evaluate at hm
  cases he : eval c.expression v.plain with
  | ok passed =>
    simp only [he] at hm
    cases passed with
    | true => rfl
    | false =>
      obtain ⟨-, rfl⟩ := Prod.mk.inj (Except.ok.inj hm)
      simp [Constraint.record, hassert] at hfailed
  | error e =>
    simp only [he] at hm
    obtain ⟨-, k, l, -, hl, rfl⟩ := Checked.ok_bind.1 hm
    obtain ⟨-, rfl⟩ := Prod.mk.inj (Except.ok.inj hl)
    simp [Constraint.record, hassert] at hfailed

end ShapeSchema
