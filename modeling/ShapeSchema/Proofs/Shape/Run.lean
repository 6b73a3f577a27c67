import Mathlib.Data.List.Forall2
import ShapeSchema.Shape.Builder

/-!
# Successful runs of the builder

`Ran x s a s'` says that a step answers `a` and leads from one state to another. A step that is put
together from others ran exactly if its parts did, one after the other. What a builder has made only
ever grows (`Grows`), and a run over a list keeps whatever each of its steps keeps
(`forall₂_of_ran_mapM`).
-/

namespace ShapeSchema.Builder

variable {α β : Type}

/-- A step answers `a` and leaves the state `s'`. -/
def Ran (x : Build α) (s : BuildState) (a : α) (s' : BuildState) : Prop :=
  x.run.run s = (.ok a, s')

/-! ## Steps and their parts -/

theorem ran_pure {a b : α} {s s' : BuildState} : Ran (pure a) s b s' ↔ a = b ∧ s = s' := by
  show (Except.ok a, s) = (Except.ok b, s') ↔ _
  simp

theorem ran_bind {x : Build α} {f : α → Build β} {s s' : BuildState} {b : β} :
    Ran (x >>= f) s b s' ↔ ∃ a t, Ran x s a t ∧ Ran (f a) t b s' := by
  unfold Ran
  rw [ExceptT.run_bind, StateT.run_bind]
  rcases hx : x.run.run s with ⟨r, t⟩
  cases r with
  | ok a =>
    show (f a).run.run t = _ ↔ _
    constructor
    · intro h
      exact ⟨a, t, rfl, h⟩
    · rintro ⟨a', t', ha, h⟩
      cases ha
      exact h
  | error e =>
    constructor
    · intro h
      cases h
    · rintro ⟨a', t', ha, h⟩
      cases ha

theorem ran_get {s s' t : BuildState} : Ran get s t s' ↔ s = t ∧ s = s' := by
  show (Except.ok s, s) = (Except.ok t, s') ↔ _
  simp

theorem ran_set {s s' t : BuildState} {u : PUnit} : Ran (set t) s u s' ↔ t = s' := by
  show (Except.ok PUnit.unit, t) = (Except.ok u, s') ↔ _
  simp

theorem ran_modify {f : BuildState → BuildState} {s s' : BuildState} {u : PUnit} :
    Ran (modify f) s u s' ↔ f s = s' := by
  show (Except.ok PUnit.unit, f s) = (Except.ok u, s') ↔ _
  simp

theorem not_ran_throw {e : Fault} {s s' : BuildState} {a : α} : ¬ Ran (throw e) s a s' := by
  intro h
  cases h

theorem not_ran_fail {shape : Shape} {problem : BuildProblem} {s s' : BuildState} {a : α} :
    ¬ Ran (fail shape problem) s a s' := by
  intro h
  obtain ⟨_, _, -, h⟩ := ran_bind.1 h
  exact not_ran_throw h

theorem ran_log {level : LogLevel} {message : String} {data : Option Native} {s s' : BuildState}
    {u : PUnit} :
    Ran (log level message data) s u s' ↔
      { s with events := s.events ++ [⟨level, message, data⟩] } = s' := ran_modify

/-! ## Growth -/

/-- What a builder has made, and what it has met, is still there later. -/
structure Grows (s s' : BuildState) : Prop where
  visited : s.visited <+: s'.visited
  names : s.names <+: s'.names
  classes : s.registry.classes <+: s'.registry.classes
  enums : s.registry.enums <+: s'.registry.enums
  aliases : s'.registry.aliases = s.registry.aliases

namespace Grows

theorem refl (s : BuildState) : Grows s s :=
  ⟨List.prefix_rfl, List.prefix_rfl, List.prefix_rfl, List.prefix_rfl, rfl⟩

theorem trans {s t u : BuildState} (h : Grows s t) (k : Grows t u) : Grows s u :=
  ⟨h.visited.trans k.visited, h.names.trans k.names, h.classes.trans k.classes,
    h.enums.trans k.enums, k.aliases.trans h.aliases⟩

end Grows

theorem find?_of_extends {es fs : List (ShapeId × α)} (h : es <+: fs) {id : ShapeId} {x : α}
    (hx : Entries.find? es id = some x) : Entries.find? fs id = some x := by
  obtain ⟨more, rfl⟩ := h
  obtain ⟨p, hp, rfl⟩ := Option.map_eq_some_iff.1 hx
  unfold Entries.find?
  rw [List.find?_append, hp]
  rfl

/-! ## Runs over lists -/

/-- A run over a list whose steps keep `I` grows the state and does `Q` to every item. `Q` has to
survive the steps that follow. -/
theorem forall₂_of_ran_mapM {I : BuildState → Prop} {Q : BuildState → α → β → Prop}
    (mono : ∀ s s' x y, Grows s s' → Q s x y → Q s' x y) {f : α → Build β} :
    ∀ {xs : List α} {s s' : BuildState} {ys : List β},
      (∀ x ∈ xs, ∀ t y t', Grows s t → I t → Ran (f x) t y t' → Grows t t' ∧ I t' ∧ Q t' x y) →
      I s → Ran (xs.mapM f) s ys s' →
      Grows s s' ∧ I s' ∧ List.Forall₂ (Q s') xs ys := by
  intro xs
  induction xs with
  | nil =>
    intro s s' ys _ hgood h
    rw [List.mapM_nil] at h
    obtain ⟨rfl, rfl⟩ := ran_pure.1 h
    exact ⟨.refl s, hgood, .nil⟩
  | cons x xs ih =>
    intro s s' ys step hgood h
    rw [List.mapM_cons] at h
    obtain ⟨y, t, hx, hrest⟩ := ran_bind.1 h
    obtain ⟨ys', t', hxs, hp⟩ := ran_bind.1 hrest
    obtain ⟨rfl, rfl⟩ := ran_pure.1 hp
    obtain ⟨g1, good1, q1⟩ := step x List.mem_cons_self s y t (.refl s) hgood hx
    obtain ⟨g2, good2, q2⟩ := ih (fun z hz u w u' hu => step z (List.mem_cons_of_mem x hz) u w u'
      (g1.trans hu)) good1 hxs
    exact ⟨g1.trans g2, good2, .cons (mono _ _ _ _ g2 q1) q2⟩

theorem forall_of_ran_forM {I : BuildState → Prop} {Q : BuildState → α → Prop}
    (mono : ∀ s s' x, Grows s s' → Q s x → Q s' x) {f : α → Build PUnit} :
    ∀ {xs : List α} {s s' : BuildState} {u : PUnit},
      (∀ x ∈ xs, ∀ t w t', Grows s t → I t → Ran (f x) t w t' → Grows t t' ∧ I t' ∧ Q t' x) →
      I s → Ran (xs.forM f) s u s' → Grows s s' ∧ I s' ∧ ∀ x ∈ xs, Q s' x := by
  intro xs
  induction xs with
  | nil =>
    intro s s' u _ hgood h
    obtain ⟨-, rfl⟩ := ran_pure.1 h
    exact ⟨.refl s, hgood, by simp⟩
  | cons x xs ih =>
    intro s s' u step hgood h
    obtain ⟨w, t, hx, hrest⟩ := ran_bind.1 h
    obtain ⟨g1, good1, q1⟩ := step x List.mem_cons_self s w t (.refl s) hgood hx
    obtain ⟨g2, good2, q2⟩ := ih (fun z hz u w u' hu => step z (List.mem_cons_of_mem x hz) u w u'
      (g1.trans hu)) good1 hrest
    refine ⟨g1.trans g2, good2, fun z hz => ?_⟩
    rcases List.mem_cons.1 hz with rfl | hz
    · exact mono _ _ _ g2 q1
    · exact q2 z hz

/-- Every step of a run over a list ran. -/
theorem exists_ran_of_mapM {f : α → Build β} {xs : List α} :
    ∀ {s s' : BuildState} {ys : List β}, Ran (xs.mapM f) s ys s' →
      ∀ x ∈ xs, ∃ t y t', Ran (f x) t y t' := by
  induction xs with
  | nil => exact fun _ _ hx => absurd hx List.not_mem_nil
  | cons x xs ih =>
    intro s s' ys h z hz
    rw [List.mapM_cons] at h
    obtain ⟨y, t, hx, hrest⟩ := ran_bind.1 h
    obtain ⟨_, _, hxs, -⟩ := ran_bind.1 hrest
    rcases List.mem_cons.1 hz with rfl | hz
    · exact ⟨s, y, t, hx⟩
    · exact ih hxs z hz

theorem exists_ran_of_forM {f : α → Build PUnit} {xs : List α} :
    ∀ {s s' : BuildState} {u : PUnit}, Ran (xs.forM f) s u s' →
      ∀ x ∈ xs, ∃ t y t', Ran (f x) t y t' := by
  induction xs with
  | nil => exact fun _ _ hx => absurd hx List.not_mem_nil
  | cons x xs ih =>
    intro s s' u h z hz
    obtain ⟨y, t, hx, hxs⟩ := ran_bind.1 h
    rcases List.mem_cons.1 hz with rfl | hz
    · exact ⟨s, y, t, hx⟩
    · exact ih hxs z hz

end ShapeSchema.Builder
