import ShapeSchema.Proofs.Convert.Forms

/-!
# Runs that judge less

One run trails another if the other gives the same value, with the checks and failed asserts of the
one among its own. Notes are only ever added, so in a sequence of runs nothing is missing exactly if
nothing is missing in any of its parts (`Checked.Trails.bind`).
-/

namespace ShapeSchema

/-! ## Notes -/

namespace Notes

variable {a b c d : Notes}

/-- The checks and failed asserts of some notes stand among those of others, in order. -/
structure Within (a b : Notes) : Prop where
  checks : a.checks.Sublist b.checks
  failedAsserts : a.failedAsserts.Sublist b.failedAsserts

/-- Notes with the same checks and failed asserts. -/
structure Agree (a b : Notes) : Prop where
  checks : a.checks = b.checks
  failedAsserts : a.failedAsserts = b.failedAsserts

theorem Within.refl (a : Notes) : a.Within a := ⟨List.Sublist.refl _, List.Sublist.refl _⟩

theorem Agree.refl (a : Notes) : a.Agree a := ⟨rfl, rfl⟩

theorem Within.append (h : a.Within b) (k : c.Within d) : (a ++ c).Within (b ++ d) :=
  ⟨h.checks.append k.checks, h.failedAsserts.append k.failedAsserts⟩

/-- Sublists that make up the whole are the whole each. -/
theorem append_eq_append_iff_of_sublist {α : Type} {xs ys zs ws : List α} (h : xs.Sublist ys)
    (k : zs.Sublist ws) : xs ++ zs = ys ++ ws ↔ xs = ys ∧ zs = ws := by
  refine ⟨fun heq => ?_, fun ⟨hx, hz⟩ => by rw [hx, hz]⟩
  have hlen := congrArg List.length heq
  rw [List.length_append, List.length_append] at hlen
  have hxs := h.length_le
  have hzs := k.length_le
  exact ⟨h.eq_of_length (by omega), k.eq_of_length (by omega)⟩

theorem agree_append_iff (h : a.Within b) (k : c.Within d) :
    (a ++ c).Agree (b ++ d) ↔ a.Agree b ∧ c.Agree d := by
  have hchecks := append_eq_append_iff_of_sublist h.checks k.checks
  have hasserts := append_eq_append_iff_of_sublist h.failedAsserts k.failedAsserts
  refine ⟨fun hagree => ?_, fun ⟨hab, hcd⟩ => ?_⟩
  · obtain ⟨h1, h2⟩ := hchecks.1 hagree.checks
    obtain ⟨h3, h4⟩ := hasserts.1 hagree.failedAsserts
    exact ⟨⟨h1, h3⟩, h2, h4⟩
  · exact ⟨hchecks.2 ⟨hab.checks, hcd.checks⟩,
      hasserts.2 ⟨hab.failedAsserts, hcd.failedAsserts⟩⟩

end Notes

/-! ## Runs -/

namespace Checked

variable {α β : Type} {q r : Prop} {x y : Checked α}

/-- The second run gives whatever value the first gives, with the checks and failed asserts of the
first among its own; `q` tells whether these are all it has. -/
def Trails (q : Prop) (x y : Checked α) : Prop :=
  ∀ a n, x.result = .ok (a, n) → ∃ m, y.result = .ok (a, m) ∧ n.Within m ∧ (n.Agree m ↔ q)

theorem Trails.refl (x : Checked α) : Trails True x x := fun _ n h =>
  ⟨n, h, .refl n, iff_true_intro (.refl n)⟩

/-- A run that only gives a value trails whatever gives it too. -/
theorem trails_pure {a : α} {m : Notes} (h : y.result = .ok (a, m))
    (hq : m.checks = [] ∧ m.failedAsserts = [] ↔ q) : Trails q (Pure.pure a) y := by
  intro b n hn
  obtain ⟨rfl, rfl⟩ := ok_pure.1 hn
  refine ⟨m, h, ⟨List.nil_sublist _, List.nil_sublist _⟩, Iff.trans ⟨fun h => ?_, fun h => ?_⟩ hq⟩
  · exact ⟨h.checks.symm, h.failedAsserts.symm⟩
  · exact ⟨h.1.symm, h.2.symm⟩

/-- Flags are not among what counts. -/
theorem Trails.of_flag {a : α} (h : Trails q (Pure.pure a) y) (f : Flag) :
    Trails q (do .flag f; return a) y := by
  intro b n hn
  obtain ⟨_, k, l, hflag, hp, rfl⟩ := ok_bind.1 hn
  cases hflag
  obtain ⟨rfl, rfl⟩ := ok_pure.1 hp
  obtain ⟨m, hm, hwithin, hagree⟩ := h _ {} rfl
  have hflags : (({} : Notes) ++ { flags := [f] } ++ {}).Agree m ↔ ({} : Notes).Agree m :=
    ⟨fun h => ⟨h.checks, h.failedAsserts⟩, fun h => ⟨h.checks, h.failedAsserts⟩⟩
  exact ⟨m, hm, ⟨hwithin.checks, hwithin.failedAsserts⟩, hflags.trans hagree⟩

theorem Trails.congr (h : Trails q x y) (hqr : q ↔ r) : Trails r x y := by
  intro a n hx
  obtain ⟨m, hy, hwithin, hagree⟩ := h a n hx
  exact ⟨m, hy, hwithin, hagree.trans hqr⟩

/-- Only what runs result in counts. -/
theorem Trails.of_result {x' y' : Checked α} (h : Trails q x y) (hx : x'.result = x.result)
    (hy : y'.result = y.result) : Trails q x' y' := by
  unfold Trails
  rw [hx, hy]
  exact h

theorem Trails.bind {f g : α → Checked β} (hx : Trails q x y)
    (hf : ∀ a n, x.result = .ok (a, n) → Trails r (f a) (g a)) :
    Trails (q ∧ r) (x >>= f) (y >>= g) := by
  intro b n h
  obtain ⟨a, n₁, n₂, h₁, h₂, rfl⟩ := ok_bind.1 h
  obtain ⟨m₁, k₁, hwithin₁, hagree₁⟩ := hx a n₁ h₁
  obtain ⟨m₂, k₂, hwithin₂, hagree₂⟩ := hf a n₁ h₁ b n₂ h₂
  refine ⟨m₁ ++ m₂, ok_bind.2 ⟨a, m₁, m₂, k₁, k₂, rfl⟩, hwithin₁.append hwithin₂, ?_⟩
  rw [Notes.agree_append_iff hwithin₁ hwithin₂, hagree₁, hagree₂]

theorem Trails.andThen (hx : Trails q x y) (f : α → Checked β) : Trails q (x >>= f) (y >>= f) :=
  (hx.bind fun a _ _ => .refl (f a)).congr (iff_of_eq (and_true q))

theorem Trails.map (hx : Trails q x y) (f : α → β) : Trails q (f <$> x) (f <$> y) :=
  hx.andThen fun a => Pure.pure (f a)

theorem Trails.mapM {f g : α → Checked β} {p : α → Prop} {xs : List α}
    (h : ∀ x ∈ xs, Trails (p x) (f x) (g x)) : Trails (∀ x ∈ xs, p x) (xs.mapM f) (xs.mapM g) := by
  induction xs with
  | nil => exact (Trails.refl _).congr (by simp)
  | cons x xs ih =>
    rw [List.forall_mem_cons] at h
    rw [List.mapM_cons, List.mapM_cons, List.forall_mem_cons]
    exact h.1.bind fun y _ _ => (ih h.2).andThen fun ys => Pure.pure (y :: ys)

end Checked

/-! ## Parts of coercion -/

namespace Coercer

open Checked

/-- Of constraints nothing is recorded exactly if they are asserts that pass. -/
theorem trails_evaluate {eval : Evaluator} (v : Value) (cs : List Constraint) :
    Trails (∀ c ∈ cs, c.level = .assert ∧ eval c.expression v.plain = .ok true)
      (Pure.pure ()) (evaluateConstraints v cs eval .quiet) := by
  have one : ∀ c : Constraint, Trails (c.level = .assert ∧ eval c.expression v.plain = .ok true)
      (Pure.pure ()) (c.evaluate eval .quiet v.plain) := by
    intro c
    unfold Constraint.evaluate
    cases he : eval c.expression v.plain with
    | ok passed =>
      refine trails_pure rfl ?_
      unfold Constraint.record
      cases c.level <;> cases passed <;> simp
    | error e =>
      refine trails_pure (m := {} ++ c.record false) rfl ?_
      unfold Constraint.record
      cases c.level <;> simp
  unfold evaluateConstraints
  induction cs with
  | nil => exact (Trails.refl _).congr (by simp)
  | cons c cs ih =>
    rw [List.forall_mem_cons]
    exact (one c).bind fun _ _ _ => ih

/-- An entry that is dropped from both maps counts for nothing. -/
theorem Trails.keepOrDrop {q : Prop} {x y : Checked Value} (h : Trails q x y) (hx : x.Settles)
    (hy : y.Settles) (hsame : y.Succeeds → x.Succeeds) (key : String) :
    Trails (x.Succeeds → q) (keepOrDrop .quiet key x) (keepOrDrop .quiet key y) := by
  rcases hx with hok | ⟨e, he⟩
  · have hsome : (x.Succeeds → q) ↔ q := ⟨fun hq => hq hok, fun hq _ => hq⟩
    rw [hsome]
    obtain ⟨⟨w, n⟩, hn⟩ := hok
    obtain ⟨m, hm, hwithin, hagree⟩ := h w n hn
    intro o k hk
    unfold Coercer.keepOrDrop at hk ⊢
    rw [hn] at hk
    rw [hm]
    cases hk
    exact ⟨m, rfl, hwithin, hagree⟩
  · have hno : ¬ x.Succeeds := by
      rintro ⟨p, hp⟩
      rw [he] at hp
      cases hp
    obtain ⟨e', he'⟩ := hy.resolve_left fun hok => hno (hsame hok)
    intro o k hk
    unfold Coercer.keepOrDrop at hk ⊢
    rw [he] at hk
    rw [he']
    cases hk
    refine ⟨_, rfl, ?_, ?_⟩
    · exact ⟨List.Sublist.refl _, List.Sublist.refl _⟩
    · exact iff_of_true ⟨rfl, rfl⟩ fun hok => absurd hok hno

/-- The first run that succeeds after misfits is what results. -/
theorem result_firstFit {whenEmpty : Checked Value} {run : Unit → Checked Value}
    {before after : List (Unit → Checked Value)}
    (hbefore : ∀ r ∈ before, ∃ e, (r ()).result = .error (.convert e))
    (hrun : (run ()).Succeeds) (last : Option Fault) :
    (firstFit last whenEmpty (before ++ run :: after)).result = (run ()).result := by
  induction before generalizing last with
  | nil =>
    obtain ⟨p, hp⟩ := hrun
    rw [List.nil_append, firstFit]
    simp only [hp]
  | cons r before ih =>
    rw [List.forall_mem_cons] at hbefore
    obtain ⟨e, he⟩ := hbefore.1
    rw [List.cons_append, firstFit]
    simp only [he]
    exact ih hbefore.2 _

section

variable {s : Schema} {eval : Evaluator}

/-- A union results in what its first member results in that admits the value. -/
theorem result_union (hc : s.Closed) (hg : s.Guarded) {pending : List String} {v : Value}
    {before after : List (Ty Authored)} {m : Ty Authored} {null : Option Authored} {a : Authored}
    (hk : s.Knows (.union (before ++ m :: after) null a))
    (hr : s.Ready pending (.union (before ++ m :: after) null a))
    (hnull : (v.isNull && null.isSome) = false) (hbefore : ∀ u ∈ before, ¬ s.Admits v u)
    (hm : s.Admits v m) (path : Path) :
    (coerceForm ⟨s, eval, .quiet⟩ pending v (.union (before ++ m :: after) null a) path).result =
      (coerceMember ⟨s, eval, .quiet⟩ pending v path
        (decide (1 < (before ++ m :: after).length)) (m, before.length)).result := by
  rw [coerceForm_union hnull, List.zipIdx_append, List.map_append, List.zipIdx_cons, List.map_cons,
    Nat.zero_add]
  refine result_firstFit (fun r hmem => ?_) ?_ none
  · obtain ⟨p, hp, rfl⟩ := List.mem_map.1 hmem
    have hp := List.fst_mem_of_mem_zipIdx hp
    have hmember : p.1 ∈ before ++ m :: after := List.mem_append_left _ hp
    have hsettles : (coerce ⟨s, eval, .quiet⟩ pending v p.1 path).Settles :=
      coerce_settles hc hg pending v p.1 path (hk.member hmember) (hr.member hmember)
    have hno : ¬ (coerce ⟨s, eval, .quiet⟩ pending v p.1 path).Succeeds := fun hyes =>
      hbefore p.1 hp ((succeeds_coerce_iff hc hg pending v p.1 path (hk.member hmember)
        (hr.member hmember)).1 hyes)
    obtain ⟨e, he⟩ := hsettles.resolve_left hno
    exact ⟨e, Checked.error_bind he _⟩
  · have hmember : m ∈ before ++ m :: after := List.mem_append_right _ List.mem_cons_self
    exact succeeds_coerceMember_iff.2 ((succeeds_coerce_iff hc hg pending v m path
      (hk.member hmember) (hr.member hmember)).2 hm)

end

end Coercer

end ShapeSchema
