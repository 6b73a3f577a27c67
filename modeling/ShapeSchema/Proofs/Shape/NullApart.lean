import ShapeSchema.Proofs.Shape.Finished
import ShapeSchema.Proofs.Ty.NullApart

/-!
# Null apart in built schemas

A builder puts its types together by the constructors of types and their operations alone, so every
type of a schema that was built is `Obtained`, also the field types that a class for partial values
derives, and no union in it counts null among its members.
-/

namespace ShapeSchema.Builder

open Ty

variable {g : Graph} {tag : String} {s : BuildState}

/-! ## Types of shapes -/

theorem Complete.obtained {id : ShapeId} {t : Ty Authored} (h : Complete g tag s id t) :
    t.Obtained := by
  cases h with
  | struct _ _ _ _ => exact (Obtained.classRef _ _ _ _).withConstraints _
  | variants _ _ _ _ =>
    refine Obtained.withConstraints _ (.unionOf _ fun t ht => ?_)
    obtain ⟨v, -, rfl⟩ := List.mem_map.1 ht
    exact .classRef _ _ _ _
  | texts =>
    refine Obtained.withConstraints _ (.unionOf _ fun t ht => ?_)
    obtain ⟨v, -, rfl⟩ := List.mem_map.1 ht
    exact .literal _ _
  | enumRef _ _ _ _ => exact (Obtained.enumRef _ _ _).withConstraints _

theorem obtained_of_scalarType? {x : Scalar} {t : Ty Authored} (h : scalarType? x = some t) :
    t.Obtained := by
  cases x with
  | u64 | usize | i128 | u128 => cases h
  | _ =>
    cases h
    exact .prim _ _

theorem HasType.obtained (hs : Sound g tag (fun _ => False) s) {id : ShapeId} {t : Ty Authored}
    (h : HasType g s id t) : t.Obtained := by
  induction h with
  | declared _ hv => exact (hs.complete hv).obtained
  | scalar _ ht => exact obtained_of_scalarType? ht
  | option _ _ ih => exact ih.optional
  | list _ _ ih => exact ih.list _
  | map _ _ _ ih => exact (Obtained.prim _ _).map _ ih
  | pointer _ _ ih => exact ih

theorem IntType.obtained {repr : IntRepr} {id : ShapeId} {t : Ty Authored}
    (h : IntType g repr id t) : t.Obtained := by
  induction h with
  | option _ _ ih => exact ih.optional
  | list _ _ ih => exact ih.list _
  | pointer _ _ ih => exact ih
  | scalar _ _ => exact .prim _ _

theorem KeyType.obtained (hs : Sound g tag (fun _ => False) s) {repr : KeyRepr} {f : Field}
    {ctx : FieldContext} {id : ShapeId} {t : Ty Authored} (h : KeyType g s repr f ctx id t) :
    t.Obtained := by
  induction h with
  | option _ _ ih => exact ih.optional
  | list _ _ ih => exact ih.list _
  | pointer _ _ ih => exact ih
  | text _ _ _ ht => exact (Obtained.prim _ _).map _ (ht.obtained hs)
  | pairs _ _ _ _ _ _ => exact (Obtained.classRef _ _ _ _).list _
  | other _ ht => exact ht.obtained hs

/-! ## Definitions -/

theorem BareType.obtained (hs : Sound g tag (fun _ => False) s) {f : Field} {ctx : FieldContext}
    {t : Ty Authored} (h : BareType g s f ctx t) : t.Obtained := by
  cases h with
  | ints _ ht => exact ht.obtained
  | keyed _ _ ht => exact ht.obtained hs
  | plain _ _ ht => exact ht.obtained hs

theorem DefinesField.obtained (hs : Sound g tag (fun _ => False) s) {owner : String}
    {v : Option Variant} {f : Field} {d : FieldDef} (h : DefinesField g s owner v f d) :
    d.type.Obtained := by
  obtain ⟨t, cs, ht, hd⟩ := h.type
  have hbare : (t.withConstraints cs).Obtained := (ht.obtained hs).withConstraints cs
  rcases hd with hd | hd
  · rw [hd]
    exact hbare
  · rw [hd]
    exact hbare.optional

theorem DefinesFields.obtained (hs : Sound g tag (fun _ => False) s) {owner : String}
    {v : Option Variant} {fields : List Field} {defs : List FieldDef}
    (h : DefinesFields g s owner v fields defs) : ∀ d ∈ defs, d.type.Obtained := by
  intro d hd
  obtain ⟨f, -, hf⟩ := exists_of_forall₂ h hd
  exact hf.obtained hs

theorem DefinesClass.obtained (hs : Sound g tag (fun _ => False) s) {src : ClassSource}
    {defs : List FieldDef} (h : DefinesClass g tag s src defs) : ∀ d ∈ defs, d.type.Obtained := by
  intro d hd
  cases h with
  | struct _ hf => exact hf.obtained hs d hd
  | variant _ _ hf =>
    rcases List.mem_cons.1 hd with rfl | hd
    · exact .literal _ _
    · exact hf.obtained hs d hd
  | entry _ hk hx =>
    rcases List.mem_cons.1 hd with rfl | hd
    · exact hk.obtained hs
    · rw [List.mem_singleton.1 hd]
      exact hx.obtained hs

/-! ## Frozen schemas -/

theorem Built.obtained {root : ShapeId} {target : Ty Authored} (h : Built g root tag s target) :
    target.Obtained ∧
      ∀ c ∈ (s.registry.freeze target).classes, ∀ f ∈ c.fields, f.type.Obtained := by
  refine ⟨h.target.obtained h.sound, fun c hc f hf => ?_⟩
  obtain ⟨src, -, hdef⟩ := h.sound.classes c (List.mem_mergeSort.1 hc)
  exact hdef.fields.obtained h.sound f hf

end ShapeSchema.Builder
