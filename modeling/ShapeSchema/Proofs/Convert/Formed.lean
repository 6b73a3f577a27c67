import ShapeSchema.Proofs.Convert.Conforms
import ShapeSchema.Proofs.Convert.Supported

/-!
# Formed values

`Schema.Formed` says that a value has the form of a type, whatever the constraints on the way say of
it. A formed value of the type of a shape is formed at the shape that options and pointers lead to
(`formed_of_landWithin`), and a null is formed only where the reader allows one, at options and at
the unit (`option_or_unit_of_bareType`).
-/

namespace ShapeSchema

/-! ## Formed values -/

/-- A value has the form of a type, whatever the constraints on the way say of it. -/
def Schema.Formed (S : Schema) (w : Value) (t : Ty Authored) : Prop :=
  Conforms S (fun _ _ => True) w t

namespace Schema

variable {S : Schema} {w : Value} {t : Ty Authored}

theorem Formed.withAnn (h : S.Formed w t) (a : Authored) : S.Formed w (t.withAnn a) := by
  cases h with
  | top h => exact .top h
  | prim hp h => exact .prim hp h
  | literal hl h => exact .literal hl h
  | enumRef he hx h => exact .enumRef he hx h
  | classRef hd hfs ho h => exact .classRef hd hfs ho h
  | list hvs h => exact .list hvs h
  | map hes h => exact .map hes h
  | tuple hvs h => exact .tuple hvs h
  | aliasRef he hw h => exact .aliasRef he hw h
  | unionNull h => exact .unionNull h
  | unionMember hm hw h => exact .unionMember hm hw h

theorem formed_withAnn_iff {a : Authored} : S.Formed w (t.withAnn a) ↔ S.Formed w t := by
  refine ⟨fun h => ?_, fun h => h.withAnn a⟩
  have := h.withAnn t.ann
  rwa [Coercer.withAnn_withAnn, Coercer.withAnn_ann] at this

theorem formed_withConstraints_iff {cs : List Constraint} :
    S.Formed w (t.withConstraints cs) ↔ S.Formed w t := by
  unfold Ty.withConstraints
  split
  · exact .rfl
  · exact formed_withAnn_iff

/-- Anything but null that has the form of an optional type has that of the type itself. -/
theorem formed_of_optional (h : S.Formed w t.optional) : w = .null ∨ S.Formed w t := by
  unfold Ty.optional Ty.optionalOf at h
  split at h
  · exact .inr h
  · exact .inr h
  · cases h with
    | unionNull => exact .inl rfl
    | unionMember hm hw => exact .inr (.unionMember hm hw trivial)
  · cases h with
    | unionNull => exact .inl rfl
    | unionMember hm hw => exact .inr (List.mem_singleton.1 hm ▸ hw)

/-- Null has the form of the types that accept it. -/
theorem formed_of_acceptsNullAmong {pending : List String}
    (h : S.acceptsNullAmong pending t = true) : S.Formed .null t := by
  induction pending, t using Schema.acceptsNullAmong.induct S with
  | case1 => exact .top trivial
  | case2 pending p a =>
    rw [Schema.acceptsNullAmong, beq_iff_eq] at h
    exact h ▸ .prim .null trivial
  | case3 pending ms null a ih =>
    rw [Schema.acceptsNullAmong, Bool.or_eq_true] at h
    rcases h with h | h
    · obtain ⟨n, rfl⟩ := Option.isSome_iff_exists.1 h
      exact .unionNull trivial
    · obtain ⟨m, -, hm⟩ := List.any_eq_true.1 h
      exact .unionMember m.property (ih m hm) trivial
  | case4 pending name mode a he =>
    rw [Schema.acceptsNullAmong, he] at h
    cases h
  | case5 pending name mode a e he hmem ih =>
    rw [Schema.acceptsNullAmong, he] at h
    exact .aliasRef he (ih (by simpa [hmem] using h)) trivial
  | case6 pending name mode a e he hmem =>
    rw [Schema.acceptsNullAmong, he] at h
    simp [hmem] at h
  | case7 pending t htop hprim hunion halias =>
    rw [Schema.acceptsNullAmong] at h
    · cases h
    · exact htop
    · exact hprim
    · exact hunion
    · exact halias

/-- The fields of a formed class value stand under their names and have the form of their types. -/
theorem formed_of_fieldsConform {fs : List (String × Value)} {ds : List FieldDef}
    (h : FieldsConform S (fun _ _ => True) fs ds) :
    List.Forall₂ (fun p d => p.1 = d.name.real ∧ S.Formed p.2 d.type) fs ds := by
  match h with
  | .nil => exact .nil
  | .cons hv hrest => exact .cons ⟨rfl, hv⟩ (formed_of_fieldsConform hrest)
  | .null hnull hrest =>
    exact .cons ⟨rfl, formed_of_acceptsNullAmong hnull⟩ (formed_of_fieldsConform hrest)

end Schema

namespace Converter

open Builder

variable {S : Schema} {s : BuildState} {w : Value}

/-! ## Options and pointers -/

/-- A formed value is formed at the shape that options and pointers lead to. -/
theorem formed_of_landWithin {g : Graph} {T : ShapeId → Ty Authored → Prop} (hT : Passes g T) :
    ∀ {fuel : Nat} {id sid : ShapeId} {x : Shape} {t : Ty Authored},
      g.landWithin w.isNull fuel id = .shape sid x → T id t → S.Formed w t →
      ∃ u, T sid u ∧ S.Formed w u := by
  intro fuel
  induction fuel with
  | zero =>
    intro id sid x t h
    cases h
  | succ fuel ih =>
    intro id sid x t h ht hw
    unfold Graph.landWithin at h
    split at h
    · next inner hs =>
      split at h
      · cases h
      next hsome =>
      obtain ⟨u, hu, rfl⟩ := hT.option hs ht
      rcases Schema.formed_of_optional hw with rfl | hw
      · exact absurd rfl hsome
      · exact ih h hu hw
    · next hs => exact ih h (hT.pointer hs ht) hw
    · cases h
      exact ⟨t, ht, hw⟩

/-- Where the form of a type allows null there is an option behind the pointers, or the unit. -/
theorem isOption_of_formed {g : Graph} {T : ShapeId → Ty Authored → Prop} (hT : Passes g T)
    {id : ShapeId} {t : Ty Authored} (ht : T id t) (hends : ∃ n, g.Ends true id n)
    (hnull : S.Formed .null t)
    (hunit : ∀ {sid x u}, g.LandsAt id sid x → T sid u → S.Formed .null u → x = .scalar .unit) :
    g.isOption id = true ∨ g.unwrap id = .scalar .unit := by
  cases hl : g.land true id with
  | null =>
    obtain ⟨inner, hi⟩ := Graph.behindPointers_of_null hl
    have : g.unwrap id = .option inner := hi
    left
    unfold Graph.isOption
    rw [this]
  | endless =>
    obtain ⟨n, hn⟩ := hends
    exact absurd hl (hn.land_ne)
  | shape sid x =>
    obtain ⟨u, hu, hformed⟩ := formed_of_landWithin (w := .null) hT hl ht hnull
    have hx := hunit (Graph.landsAt_of_land hl) hu hformed
    exact .inr (hx ▸ Graph.behindPointers_of_shape hl)

/-! ## Nulls -/

theorem not_formed_null_union {α : Type} {f : α → Ty Authored} (hf : ∀ x, (f x).nullAnn? = none)
    {xs : List α} {a : Authored} (h : ∀ x, ¬ S.Formed .null (f x)) :
    ¬ S.Formed .null (Ty.unionOf (xs.map f) a) := by
  rw [unionOf_map hf]
  intro hnull
  cases hnull with
  | unionMember hm hw =>
  obtain ⟨x, -, rfl⟩ := List.mem_map.1 hm
  exact h x hw

theorem not_formed_null_complete {g : Graph} {tag : String} {id : ShapeId} {t : Ty Authored}
    (h : Complete g tag s id t) : ¬ S.Formed .null t := by
  cases h with
  | struct =>
    rw [Schema.formed_withConstraints_iff]
    rintro ⟨⟩
  | variants =>
    rw [Schema.formed_withConstraints_iff]
    refine not_formed_null_union (fun _ => rfl) fun x => ?_
    rintro ⟨⟩
  | texts =>
    rw [Schema.formed_withConstraints_iff]
    refine not_formed_null_union (fun _ => rfl) fun x hx => ?_
    cases hx with
    | literal hl => cases hl
  | enumRef =>
    rw [Schema.formed_withConstraints_iff]
    rintro ⟨⟩

theorem unit_of_hasType {g : Graph} {tag : String} (hsound : Sound g tag (fun _ => False) s)
    {id sid : ShapeId} {x : Shape} {u : Ty Authored} (hlands : g.LandsAt id sid x)
    (hu : HasType g s sid u) (hnull : S.Formed .null u) : x = .scalar .unit := by
  cases hu with
  | option hs => exact absurd hs hlands.ne_option
  | pointer hs => exact absurd hs hlands.ne_pointer
  | declared _ hfound =>
    exact absurd hnull (not_formed_null_complete (hsound.complete hfound))
  | @scalar _ y _ hs hscalar =>
    have hy : y = .unit := by
      cases y <;> first | rfl | cases hscalar <;> cases hnull with | prim hp => cases hp
    rw [← hlands.shape, hs, hy]
  | list | map => cases hnull

/-- A null below a field belongs to an option, or to the unit. -/
theorem option_or_unit_of_bareType {g : Graph} {tag : String}
    (hsound : Sound g tag (fun _ => False) s) {f : Field} {ctx : FieldContext} {t : Ty Authored}
    (ht : BareType g s f ctx t) (hnull : S.Formed .null t) :
    g.isOption f.shape = true ∨ g.unwrap f.shape = .scalar .unit := by
  cases ht with
  | @ints repr t _ hi =>
    refine isOption_of_formed (passes_intType repr) hi (ends_of_intType hi) hnull ?_
    intro sid x u hlands hu hformed
    cases hu with
    | option hs => exact absurd hs hlands.ne_option
    | pointer hs => exact absurd hs hlands.ne_pointer
    | list => cases hformed
    | scalar =>
      cases hformed with
      | prim hp => cases repr <;> cases hp
  | keyed _ _ hkey =>
    refine isOption_of_formed (passes_keyType s _ f _) hkey (ends_of_keyType hkey) hnull ?_
    intro sid x u hlands hu hformed
    cases hu with
    | option hs => exact absurd hs hlands.ne_option
    | pointer hs => exact absurd hs hlands.ne_pointer
    | list | text | pairs => cases hformed
    | other _ hplain => exact unit_of_hasType hsound hlands hplain hformed
  | plain _ _ hplain =>
    exact isOption_of_formed (passes_hasType s) hplain (ends_of_hasType hplain) hnull
      fun hlands hu hformed => unit_of_hasType hsound hlands hu hformed

theorem isOption_of_bareType {g : Graph} {tag : String} (hsound : Sound g tag (fun _ => False) s)
    {f : Field} {ctx : FieldContext} {t : Ty Authored} (ht : BareType g s f ctx t)
    (hunit : g.unwrap f.shape ≠ .scalar .unit) (hnull : S.Formed .null t) :
    g.isOption f.shape = true := (option_or_unit_of_bareType hsound ht hnull).resolve_right hunit

end Converter

end ShapeSchema
