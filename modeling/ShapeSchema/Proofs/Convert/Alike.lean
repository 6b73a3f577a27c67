import ShapeSchema.Proofs.Convert.Forms

/-!
# Runs that end alike

Two runs are `Alike` if both succeed, with related values and notes, or both fail with related
faults. What counts as related notes and faults is a `Likeness`, which runs built in the same way
from alike runs keep: sequences (`Alike.bind`), runs over lists (`alike_mapM`), the first run that
fits (`alike_firstFit`) and entries that may be dropped (`alike_keepOrDrop`).
-/

namespace ShapeSchema

/-- A value does not fit; only this fault leads on to the next member of a union. -/
def Fault.IsMisfit (f : Fault) : Prop := ∃ e, f = .convert e

/-- Notes that record no result of a constraint. -/
def Notes.Unjudging (n : Notes) : Prop := n.checks = [] ∧ n.failedAsserts = []

/-- Which notes and which faults of two runs are related. -/
structure Likeness where
  notes : Notes → Notes → Prop
  faults : Fault → Fault → Prop
  notes_refl : ∀ n, notes n n
  faults_refl : ∀ f, faults f f
  notes_append : ∀ {a b c d}, notes a b → notes c d → notes (a ++ c) (b ++ d)
  /-- Flags and explanations do not matter. -/
  notes_unjudging : ∀ {a b}, a.Unjudging → b.Unjudging → notes a b
  isMisfit : ∀ {f g}, faults f g → (f.IsMisfit ↔ g.IsMisfit)

namespace Checked

variable {α β γ δ : Type} {L : Likeness} {R : α → β → Prop} {S : γ → δ → Prop}

/-- Results that are alike. -/
inductive AlikeResult (L : Likeness) (R : α → β → Prop) :
    Except Fault (α × Notes) → Except Fault (β × Notes) → Prop where
  | ok {a : α} {b : β} {m n : Notes} : R a b → L.notes m n →
      AlikeResult L R (.ok (a, m)) (.ok (b, n))
  | error {f g : Fault} : L.faults f g → AlikeResult L R (.error f) (.error g)

/-- Runs whose results are alike. -/
def Alike (L : Likeness) (R : α → β → Prop) (x : Checked α) (y : Checked β) : Prop :=
  AlikeResult L R x.result y.result

theorem alike_pure {a : α} {b : β} (h : R a b) : Alike L R (Pure.pure a) (Pure.pure b) :=
  .ok h (L.notes_refl {})

theorem alike_fail {f g : Fault} (h : L.faults f g) :
    Alike L R (fail f : Checked α) (fail g : Checked β) := .error h

theorem alike_flag (f g : Flag) : Alike L (fun _ _ => True) (flag f) (flag g) :=
  .ok trivial (L.notes_unjudging ⟨rfl, rfl⟩ ⟨rfl, rfl⟩)

theorem Alike.refl {R : α → α → Prop} (hR : ∀ a, R a a) (x : Checked α) : Alike L R x x := by
  unfold Alike
  cases x.result with
  | ok p => exact .ok (hR p.1) (L.notes_refl p.2)
  | error f => exact .error (L.faults_refl f)

theorem Alike.imp {R' : α → β → Prop} {x : Checked α} {y : Checked β} (h : Alike L R x y)
    (hR : ∀ a b, R a b → R' a b) : Alike L R' x y := by
  obtain ⟨_, r⟩ := x
  obtain ⟨_, q⟩ := y
  cases h with
  | ok hab hn => exact .ok (hR _ _ hab) hn
  | error hf => exact .error hf

/-- Only what runs result in counts. -/
theorem Alike.of_result {x x' : Checked α} {y y' : Checked β} (h : Alike L R x y)
    (hx : x'.result = x.result) (hy : y'.result = y.result) : Alike L R x' y' := by
  unfold Alike
  rw [hx, hy]
  exact h

theorem Alike.bind {x : Checked α} {y : Checked β} {f : α → Checked γ} {g : β → Checked δ}
    (h : Alike L R x y) (hf : ∀ a b, R a b → Alike L S (f a) (g b)) :
    Alike L S (x >>= f) (y >>= g) := by
  obtain ⟨_, r⟩ := x
  obtain ⟨_, q⟩ := y
  cases h with
  | error hfault => exact .error hfault
  | @ok a b m n hab hmn =>
    have hfg := hf a b hab
    show AlikeResult L S (((f a).result).map _) (((g b).result).map _)
    generalize f a = r at hfg
    generalize g b = q at hfg
    obtain ⟨_, r⟩ := r
    obtain ⟨_, q⟩ := q
    cases hfg with
    | error hfault => exact .error hfault
    | ok hcd hkl => exact .ok hcd (L.notes_append hmn hkl)

/-- What alike runs result in. -/
theorem Alike.results {x : Checked α} {y : Checked β} (h : Alike L R x y) :
    (∃ a b m n, x.result = .ok (a, m) ∧ y.result = .ok (b, n) ∧ R a b ∧ L.notes m n) ∨
      ∃ f g, x.result = .error f ∧ y.result = .error g ∧ L.faults f g := by
  obtain ⟨_, r⟩ := x
  obtain ⟨_, q⟩ := y
  cases h with
  | ok hab hmn => exact .inl ⟨_, _, _, _, rfl, rfl, hab, hmn⟩
  | error hf => exact .inr ⟨_, _, rfl, rfl, hf⟩

theorem Alike.result_ok {x : Checked α} {y : Checked β} (h : Alike L R x y) {a : α} {m : Notes}
    (hx : x.result = .ok (a, m)) : ∃ b n, y.result = .ok (b, n) ∧ R a b ∧ L.notes m n := by
  obtain ⟨a', b, m', n, ha, hb, hab, hmn⟩ | ⟨f, g, hf, -, -⟩ := h.results
  · cases ha.symm.trans hx
    exact ⟨b, n, hb, hab, hmn⟩
  · cases hf.symm.trans hx

theorem Alike.misfit {x : Checked α} {y : Checked β} (h : Alike L R x y) {e : ConvertError}
    (hx : x.result = .error (.convert e)) :
    ∃ e', y.result = .error (.convert e') ∧ L.faults (.convert e) (.convert e') := by
  obtain ⟨a, b, m, n, ha, -, -, -⟩ | ⟨f, g, hf, hg, hfg⟩ := h.results
  · cases ha.symm.trans hx
  · cases hf.symm.trans hx
    obtain ⟨e', rfl⟩ := (L.isMisfit hfg).1 ⟨e, rfl⟩
    exact ⟨e', hg, hfg⟩

theorem Alike.misfit_left {x : Checked α} {y : Checked β} (h : Alike L R x y) {e : ConvertError}
    (hy : y.result = .error (.convert e)) :
    ∃ e', x.result = .error (.convert e') ∧ L.faults (.convert e') (.convert e) := by
  obtain ⟨a, b, m, n, -, hb, -, -⟩ | ⟨f, g, hf, hg, hfg⟩ := h.results
  · cases hb.symm.trans hy
  · cases hg.symm.trans hy
    obtain ⟨e', rfl⟩ := (L.isMisfit hfg).2 ⟨e, rfl⟩
    exact ⟨e', hf, hfg⟩

theorem Alike.map {x : Checked α} {y : Checked β} {f : α → γ} {g : β → δ} (h : Alike L R x y)
    (hf : ∀ a b, R a b → S (f a) (g b)) : Alike L S (f <$> x) (g <$> y) :=
  h.bind fun a b hab => alike_pure (hf a b hab)

theorem alike_mapM {T : α → β → Prop} {f : α → Checked γ} {g : β → Checked δ} {xs : List α}
    {ys : List β} (h : List.Forall₂ T xs ys)
    (hfg : ∀ x ∈ xs, ∀ y, T x y → Alike L S (f x) (g y)) :
    Alike L (List.Forall₂ S) (xs.mapM f) (ys.mapM g) := by
  induction h with
  | nil => exact alike_pure .nil
  | @cons x y xs ys hxy _ ih =>
    rw [List.mapM_cons, List.mapM_cons]
    refine (hfg x List.mem_cons_self y hxy).bind fun a b hab => ?_
    refine (ih fun x' hx' => hfg x' (List.mem_cons_of_mem x hx')).bind fun as bs habs => ?_
    exact alike_pure (.cons hab habs)

theorem alike_mapM_same {f : α → Checked γ} {g : α → Checked δ} {xs : List α}
    (h : ∀ x ∈ xs, Alike L S (f x) (g x)) :
    Alike L (List.Forall₂ S) (xs.mapM f) (xs.mapM g) := by
  have heq : List.Forall₂ Eq xs xs := List.forall₂_same.2 fun _ _ => rfl
  refine alike_mapM heq fun x hx y hxy => ?_
  rw [← hxy]
  exact h x hx

end Checked

namespace Coercer

open Checked

variable {L : Likeness} {R : Value → Value → Prop}

theorem firstFit_of_misfit {last : Option Fault} {whenEmpty : Checked Value}
    {run : Unit → Checked Value} {runs : List (Unit → Checked Value)} {e : ConvertError}
    (h : (run ()).result = .error (.convert e)) :
    (firstFit last whenEmpty (run :: runs)).result
      = (firstFit (some (.convert e)) whenEmpty runs).result := by
  rw [firstFit]
  simp only [h]

theorem firstFit_of_not_misfit {last : Option Fault} {whenEmpty : Checked Value}
    {run : Unit → Checked Value} {runs : List (Unit → Checked Value)}
    (h : ∀ e, (run ()).result ≠ .error (.convert e)) :
    firstFit last whenEmpty (run :: runs) = run () := by
  rw [firstFit]
  split
  · next e he => exact absurd he (h e)
  · rfl

/-- Runs that are tried in turn, each alike to its counterpart. -/
theorem alike_firstFit {whenEmpty whenEmpty' : Checked Value}
    (hempty : Alike L R whenEmpty whenEmpty') {runs runs' : List (Unit → Checked Value)}
    (h : List.Forall₂ (fun r r' => Alike L R (r ()) (r' ())) runs runs') {last last' : Option Fault}
    (hlast : Option.Rel L.faults last last') :
    Alike L R (firstFit last whenEmpty runs) (firstFit last' whenEmpty' runs') := by
  induction h generalizing last last' with
  | nil =>
    cases hlast with
    | none => exact hempty
    | some hf => exact alike_fail hf
  | @cons r r' runs runs' hr _ ih =>
    by_cases hmisfit : ∃ e, (r ()).result = .error (.convert e)
    · obtain ⟨e, he⟩ := hmisfit
      obtain ⟨e', he', hee'⟩ := hr.misfit he
      exact (ih (.some hee')).of_result (firstFit_of_misfit he) (firstFit_of_misfit he')
    · have hmisfit' : ∀ e, (r' ()).result ≠ .error (.convert e) := fun e' he' => by
        obtain ⟨e, he, -⟩ := hr.misfit_left he'
        exact hmisfit ⟨e, he⟩
      rw [firstFit_of_not_misfit (not_exists.1 hmisfit), firstFit_of_not_misfit hmisfit']
      exact hr

/-- Members of unions, which may stand in different places. -/
theorem alike_coerceMember {c c' : Coercer} {pending pending' : List String} {v w : Value}
    {path : Path} {m m' : Ty Authored × Nat}
    (h : Alike L R (c.coerce pending v m.1 path) (c'.coerce pending' w m'.1 path))
    (several : Bool) : Alike L R (c.coerceMember pending v path several m)
      (c'.coerceMember pending' w path several m') := by
  unfold coerceMember
  refine h.bind fun x y hxy => ?_
  cases several with
  | true => exact (alike_flag _ _).bind fun _ _ _ => alike_pure hxy
  | false => exact alike_pure hxy

theorem result_keepOrDrop {sink : Sink} {key : String} {r : Checked Value} {f : Fault}
    (hf : ¬ f.IsMisfit) (h : r.result = .error f) :
    (keepOrDrop sink key r).result = .error f := by
  unfold keepOrDrop
  rw [h]
  cases f with
  | convert e => exact absurd ⟨e, rfl⟩ hf
  | _ => rfl

/-- Entries that may be dropped. -/
theorem alike_keepOrDrop {x y : Checked Value} (h : Alike L R x y) (key : String) :
    Alike L (Option.Rel fun p q => p.1 = q.1 ∧ R p.2 q.2) (keepOrDrop .quiet key x)
      (keepOrDrop .quiet key y) := by
  obtain ⟨_, r⟩ := x
  obtain ⟨_, q⟩ := y
  cases h with
  | ok hab hn => exact .ok (.some ⟨rfl, hab⟩) hn
  | @error f g hf =>
    by_cases hmisfit : f.IsMisfit
    · obtain ⟨e', rfl⟩ := (L.isMisfit hf).1 hmisfit
      obtain ⟨e, rfl⟩ := hmisfit
      exact .ok .none (L.notes_unjudging ⟨rfl, rfl⟩ ⟨rfl, rfl⟩)
    · have hmisfit' := (L.isMisfit hf).not.1 hmisfit
      unfold Alike
      rw [result_keepOrDrop hmisfit rfl, result_keepOrDrop hmisfit' rfl]
      exact .error hf

end Coercer

end ShapeSchema
