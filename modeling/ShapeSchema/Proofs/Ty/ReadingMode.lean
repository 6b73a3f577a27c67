import ShapeSchema.Proofs.Ty.Flags
import ShapeSchema.Ty.ReadingMode

/-!
# Reading modes

In partial surroundings a value is read partially exactly if its type asks for that somewhere: by a
reference to a partial definition, or by the flag `state` on a node below more than one union
(`readingMode_decided`). What counts are the types that the parts of a value are read as; an arrow
has none, and the null of a union is not looked at.

The walk through a type ends at the first node that asks. Since no node fails, the nodes that it
leaves out cannot change the answer, so each node is settled by what it asks for itself and by the
types of its parts (`partialIff_step`).
-/

namespace ShapeSchema

/-! ## Merged modes -/

namespace Outcome

/-- The outcome is a mode, and it is the partial one exactly if `p` holds. -/
def PartialIff (o : Outcome Mode) (p : Prop) : Prop := ∃ m, o = .ok m ∧ (m = .partialValue ↔ p)

variable {o : Outcome Mode} {p q : Prop}

theorem PartialIff.congr (h : o.PartialIff p) (hpq : p ↔ q) : o.PartialIff q := by
  obtain ⟨m, ho, hm⟩ := h
  exact ⟨m, ho, hm.trans hpq⟩

theorem PartialIff.eq_complete (h : o.PartialIff p) (hp : ¬ p) : o = .ok .complete := by
  obtain ⟨m, rfl, hm⟩ := h
  cases m with
  | complete => rfl
  | partialValue => exact absurd (hm.1 rfl) hp

theorem PartialIff.eq_partial (h : o.PartialIff p) (hp : p) : o = .ok .partialValue := by
  obtain ⟨m, rfl, hm⟩ := h
  rw [hm.2 hp]

theorem partialIff_ok (m : Mode) : (ok m).PartialIff (m = .partialValue) := ⟨m, rfl, Iff.rfl⟩

/-- An outcome that is only asked for unless something forces the partial mode. -/
theorem PartialIff.orForced (h : o.PartialIff p) (forced : Bool) :
    (if forced then .ok .partialValue else o).PartialIff (forced = true ∨ p) := by
  cases forced with
  | true => exact (partialIff_ok .partialValue).congr (by simp)
  | false => exact h.congr (by simp)

end Outcome

theorem mergeModes_cons_complete (os : List (Outcome Mode)) :
    mergeModes (.ok .complete :: os) = mergeModes os := rfl

theorem mergeModes_cons_partial (os : List (Outcome Mode)) :
    mergeModes (.ok .partialValue :: os) = .ok .partialValue := rfl

/-- Where nothing fails, merging finds the partial mode wherever it stands. -/
theorem partialIff_mergeModes {α : Type} {f : α → Outcome Mode} {P : α → Prop} {xs : List α}
    (h : ∀ x ∈ xs, (f x).PartialIff (P x)) :
    (mergeModes (xs.map f)).PartialIff (∃ x ∈ xs, P x) := by
  induction xs with
  | nil => exact (Outcome.partialIff_ok .complete).congr (by simp)
  | cons x xs ih =>
    obtain ⟨hx, hxs⟩ := List.forall_mem_cons.1 h
    rw [List.map_cons]
    by_cases hp : P x
    · rw [hx.eq_partial hp, mergeModes_cons_partial]
      exact (Outcome.partialIff_ok .partialValue).congr (by simp [hp])
    · rw [hx.eq_complete hp, mergeModes_cons_complete]
      exact (ih hxs).congr (by simp [hp])

namespace Ty

variable {μ ν : Type}

/-! ## The way down to a node -/

/-- The types that the parts of a value are read as. -/
def contents : Ty μ → List (Ty μ)
  | list i _ => [i]
  | map k v _ => [k, v]
  | tuple is _ => is
  | union ms _ _ => ms
  | _ => []

/-- A way from the root of a type down to one of its nodes, along the nodes above it. -/
inductive Descent : Ty μ → List (Ty μ) → Ty μ → Prop
  | root {t : Ty μ} : Descent t [] t
  | down {t u v : Ty μ} {path : List (Ty μ)} :
    v ∈ t.contents → Descent v path u → Descent t (t :: path) u

theorem mem_children_of_mem_contents {t v : Ty μ} (h : v ∈ t.contents) : v ∈ t.children := by
  cases t with
  | union ms null a => exact List.mem_append_left _ h
  | arrow ps r a => exact absurd h List.not_mem_nil
  | _ => exact h

theorem contents_mapAnn (f : Ty μ → ν) (mode : Option Mode) (t : Ty μ) :
    (t.mapAnn f mode).contents = t.contents.map (mapAnn f mode) := by
  cases t with
  | tuple is a => exact mapAnns_eq_map f mode is
  | union ms null a => exact mapAnns_eq_map f mode ms
  | _ => rfl

/-- In a type annotated anew, every way down leads to a node annotated anew. -/
theorem Descent.exists_eq_mapAnn {f : Ty μ → ν} {mode : Option Mode} {t : Ty μ}
    {path : List (Ty ν)} {u : Ty ν} (h : Descent (t.mapAnn f mode) path u) :
    ∃ v : Ty μ, u = v.mapAnn f mode := by
  generalize hs : t.mapAnn f mode = s at h
  induction h generalizing t with
  | root => exact ⟨t, hs.symm⟩
  | down hv _ ih =>
    rw [← hs, contents_mapAnn] at hv
    obtain ⟨w, -, rfl⟩ := List.mem_map.1 hv
    exact ih rfl

/-! ## What decides the mode -/

variable [Metadata μ]

/-- A node that is read partially `depth` unions down, whatever its parts are read as. -/
def AsksPartial (depth : Int) (u : Ty μ) : Prop :=
  u.mode? = some .partialValue ∨ Metadata.state u.ann = true ∧ 1 < depth

/-- How many unions stand above the parts of a type. -/
def depthBelow (t : Ty μ) (depth : Int) : Int := if t.isUnion then depth + 1 else depth

/-- Some node on the way down from `t` is read partially. -/
def AsksBelow (depth : Int) (t : Ty μ) : Prop :=
  ∃ path u, Descent t path u ∧ u.AsksPartial (depth + path.countP isUnion)

theorem asksBelow_iff {t : Ty μ} {depth : Int} :
    t.AsksBelow depth ↔
      t.AsksPartial depth ∨ ∃ v ∈ t.contents, v.AsksBelow (t.depthBelow depth) := by
  have hdepth (path : List (Ty μ)) : depth + (t :: path).countP isUnion
      = t.depthBelow depth + path.countP isUnion := by
    rw [List.countP_cons, depthBelow]
    split <;> push_cast <;> omega
  constructor
  · rintro ⟨path, u, hdescent, hu⟩
    cases hdescent with
    | root => exact .inl (by simpa using hu)
    | down hv hdescent =>
      rw [hdepth] at hu
      exact .inr ⟨_, hv, _, u, hdescent, hu⟩
  · rintro (h | ⟨v, hv, path, u, hdescent, hu⟩)
    · exact ⟨[], t, .root, by simpa using h⟩
    · refine ⟨t :: path, u, .down hv hdescent, ?_⟩
      rwa [hdepth]

theorem partialModes_eq_map (depth : Int) (ts : List (Ty μ)) :
    partialModes depth ts = ts.map (partialMode depth) := by
  induction ts with
  | nil => rfl
  | cons t ts ih => rw [partialModes, ih]; rfl

/-- The flag `state` is looked at first, and all else only if it does not decide. -/
theorem partialIff_of_rest {t : Ty μ} {depth : Int} {o : Outcome Mode} {p : Prop}
    (heq : t.partialMode depth = if 1 < depth && Metadata.state t.ann then .ok .partialValue else o)
    (h : o.PartialIff (t.mode? = some .partialValue ∨ p)) :
    (t.partialMode depth).PartialIff (t.AsksPartial depth ∨ p) := by
  rw [heq]
  refine (h.orForced _).congr ?_
  rw [Bool.and_eq_true, decide_eq_true_eq, and_comm, AsksPartial, or_assoc, or_left_comm]

/-- A node is settled by what it asks for itself and by the types of its parts. -/
theorem partialIff_step {t : Ty μ} {depth : Int} {P : Ty μ → Prop}
    (h : ∀ v ∈ t.contents, (v.partialMode (t.depthBelow depth)).PartialIff (P v)) :
    (t.partialMode depth).PartialIff (t.AsksPartial depth ∨ ∃ v ∈ t.contents, P v) := by
  -- leaves and arrows merge no modes at all
  have merged (hm : t.mode? = none) :
      (mergeModes (t.contents.map (partialMode (t.depthBelow depth)))).PartialIff
        (t.mode? = some .partialValue ∨ ∃ v ∈ t.contents, P v) :=
    (partialIff_mergeModes h).congr (by simp [hm])
  cases t with
  | top a => exact partialIff_of_rest rfl (merged rfl)
  | prim p a => exact partialIff_of_rest rfl (merged rfl)
  | enumRef n d a => exact partialIff_of_rest rfl (merged rfl)
  | literal l a => exact partialIff_of_rest rfl (merged rfl)
  | arrow ps r a => exact partialIff_of_rest rfl (merged rfl)
  | classRef n m d a =>
    exact partialIff_of_rest rfl ((Outcome.partialIff_ok m).congr (by simp [mode?, contents]))
  | aliasRef n m a =>
    exact partialIff_of_rest rfl ((Outcome.partialIff_ok m).congr (by simp [mode?, contents]))
  | list i a =>
    have hitem : (i.partialMode depth).PartialIff (P i) := h i List.mem_cons_self
    exact partialIff_of_rest rfl (hitem.congr (by simp [mode?, contents]))
  | map k v a => exact partialIff_of_rest rfl (merged rfl)
  | tuple is a =>
    exact partialIff_of_rest (by rw [partialMode, partialModes_eq_map]; rfl) (merged rfl)
  | union ms null a =>
    exact partialIff_of_rest (by rw [partialMode, partialModes_eq_map]; rfl) (merged rfl)

/-- A type is read partially exactly if it asks for that somewhere below. -/
theorem partialIff_partialMode (t : Ty μ) (depth : Int) :
    (t.partialMode depth).PartialIff (t.AsksBelow depth) := by
  -- at every depth at once, since a union hands its members another one than its own
  induction t using inductChildren generalizing depth with
  | step t ih =>
    have hparts : ∀ v ∈ t.contents,
        (v.partialMode (t.depthBelow depth)).PartialIff (v.AsksBelow (t.depthBelow depth)) :=
      fun v hv => ih v (mem_children_of_mem_contents hv) _
    exact (partialIff_step hparts).congr asksBelow_iff.symm

/-- A type always has a reading mode. In partial surroundings, `depth` unions down, it is the
partial one exactly if on some way down through lists, maps, tuples and members of unions there is
a reference to a partial definition, or a node with the flag `state` such that `depth` and the
unions on the way make more than one. In complete surroundings the mode is complete. References are
not looked up. -/
theorem readingMode_decided (t : Ty μ) (depth : Int) :
    (∃ m, t.readingMode .partialValue depth = .ok m ∧
      (m = .partialValue ↔ ∃ path u, Descent t path u ∧
        (u.mode? = some .partialValue ∨
          Metadata.state u.ann = true ∧ 1 < depth + path.countP isUnion))) ∧
      t.readingMode .complete depth = .ok .complete :=
  ⟨partialIff_partialMode t depth, rfl⟩

/-- A stateful list below two unions; the unions' nulls do not count, whatever their flags. -/
example : (union [union [list (prim .int ⟨[], { state := true }⟩) {}] none {}] none {} :
      Ty Authored).readingMode .partialValue 0 = .ok .partialValue ∧
    (union [union [prim .int {}] (some ⟨[], { state := true }⟩) {}] none {} :
      Ty Authored).readingMode .partialValue 0 = .ok .complete := ⟨rfl, rfl⟩

/-- Settled types are read as complete in all surroundings. -/
theorem readingMode_toSettled (t : Ty μ) (mode : Mode) (depth : Int) :
    t.toSettled.readingMode mode depth = .ok .complete := by
  cases mode with
  | complete => rfl
  | partialValue =>
    refine (partialIff_partialMode t.toSettled depth).eq_complete ?_
    rintro ⟨path, u, hdescent, hu⟩
    obtain ⟨v, rfl⟩ := hdescent.exists_eq_mapAnn
    rcases hu with hmode | ⟨hstate, -⟩
    · rw [mode?_mapAnn] at hmode
      obtain ⟨_, -, h⟩ := Option.map_eq_some_iff.1 hmode
      cases h
    · exact Bool.false_ne_true hstate

end Ty

end ShapeSchema
