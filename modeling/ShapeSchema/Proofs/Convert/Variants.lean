import ShapeSchema.Proofs.Convert.Shown

/-!
# Variants by their names

The reader looks for the shown name of a variant before the real one, the enum that stands for the
variants the other way round. A name `Tells` a variant if both lead to it, one after the other
(`match?_of_tells`).
-/

namespace ShapeSchema

/-- A name that leads to the same variant after coercion has turned it into an enum value: a real
name, or a shown one, if no other variant is shown under the real name of its variant. -/
def Variant.Tells (vs : List Variant) (name : String) : Prop :=
  (∃ x ∈ vs, x.name = name) ∨ (∃ x ∈ vs, x.rendered = name) ∧
    ∀ x ∈ vs, x.rendered = name → ∀ y ∈ vs, y.rendered = x.name → y.name = x.name

namespace Converter

open Builder

/-! ## What the reader finds -/

theorem match?_rendered {vs : List Variant} (nd : (vs.map (·.rendered)).Nodup) {x : Variant}
    (hx : x ∈ vs) : Variant.match? vs x.rendered = some x := by
  unfold Variant.match?
  rw [find?_of_nodup_map nd hx]
  rfl

/-- The shown and the real name of a variant mean some variant. -/
theorem exists_match? {vs : List Variant} {x : Variant} (hx : x ∈ vs) {name : String}
    (h : x.rendered = name ∨ x.name = name) : ∃ y, Variant.match? vs name = some y := by
  rw [← Option.isSome_iff_exists]
  unfold Variant.match?
  rw [Option.isSome_or, Option.isSome_or, Bool.or_eq_true, Bool.or_eq_true]
  rcases h with h | h
  · exact .inl (List.find?_isSome.2 ⟨x, hx, by simp [h]⟩)
  · exact .inr (.inl (List.find?_isSome.2 ⟨x, hx, by simp [h]⟩))

/-- The first variant that is shown under a name stands behind variants that are not. -/
theorem split_shown {vs : List Variant} {name : String} (h : ∃ x ∈ vs, x.rendered = name) :
    ∃ x before after, vs = before ++ x :: after ∧ x.rendered = name ∧
      (∀ y ∈ before, y.rendered ≠ name) ∧ Variant.match? vs name = some x := by
  obtain ⟨y, hy, hname⟩ := h
  obtain ⟨x, hx⟩ : ∃ x, vs.find? (·.rendered == name) = some x :=
    Option.isSome_iff_exists.1 (List.find?_isSome.2 ⟨y, hy, beq_iff_eq.2 hname⟩)
  obtain ⟨hshown, before, after, hvs, hbefore⟩ := List.find?_eq_some_iff_append.1 hx
  refine ⟨x, before, after, hvs, beq_iff_eq.1 hshown, fun z hz => ?_, ?_⟩
  · simpa using hbefore z hz
  · unfold Variant.match?
    rw [hx]
    rfl

/-- The real name of a variant that no other variant is shown under means a variant of that name. -/
theorem match?_real {vs : List Variant} {x : Variant} (hx : x ∈ vs)
    (h : ∀ y ∈ vs, y.rendered = x.name → y.name = x.name) :
    ∃ y, Variant.match? vs x.name = some y ∧ y.name = x.name := by
  obtain ⟨y, hy⟩ := exists_match? hx (.inr rfl)
  refine ⟨y, hy, ?_⟩
  unfold Variant.match? at hy
  rcases Option.or_eq_some_iff.1 hy with hy | ⟨-, hy⟩
  · exact h y (List.mem_of_find?_eq_some hy) (by simpa using List.find?_some hy)
  rcases Option.or_eq_some_iff.1 hy with hy | ⟨hnone, -⟩
  · simpa using List.find?_some hy
  · exact absurd (beq_self_eq_true _) (List.find?_eq_none.1 hnone x hx)

/-! ## What an enum finds -/

/-- An enum finds the first variant that is shown under a name, if no variant is called so. -/
theorem findValue?_shown (nm : String) (d : Declared) (cs : List Constraint) {name : String}
    {x : Variant} {before after : List Variant} (hx : x.rendered = name)
    (hbefore : ∀ y ∈ before, y.rendered ≠ name)
    (hreal : ∀ y ∈ before ++ x :: after, y.name ≠ name) :
    ∃ z, (enumDef nm d (before ++ x :: after) cs).findValue? name = some z ∧
      z.name.real = x.name := by
  have hnone : (before ++ x :: after).find? (fun y => y.name == name) = none :=
    List.find?_eq_none.2 fun y hy => by simpa using hreal y hy
  have hfound : (before ++ x :: after).find? (fun y => y.rendered == name) = some x :=
    List.find?_eq_some_iff_append.2
      ⟨by simpa using hx, before, after, rfl, fun y hy => by simpa using hbefore y hy⟩
  rw [findValue?_enumDef, Variant.known?, hnone, hfound]
  exact ⟨_, rfl, rfl⟩

/-- A name that tells a variant leads to it through the enum value that coercion makes. -/
theorem match?_of_tells {nm name : String} {d : Declared} {vs : List Variant} {x : Variant}
    (cs : List Constraint) (h : Variant.Tells vs name) (hx : Variant.match? vs name = some x) :
    ∃ z y, (enumDef nm d vs cs).findValue? name = some z ∧
      Variant.match? vs z.name.real = some y ∧ y.name = x.name := by
  by_cases hreal : ∃ y ∈ vs, y.name = name
  · obtain ⟨y, hy, rfl⟩ := hreal
    obtain ⟨z, hz, hname⟩ := findValue?_real hy
    exact ⟨z, x, hz, hname ▸ hx, rfl⟩
  · obtain ⟨hshown, hother⟩ := h.resolve_left hreal
    obtain ⟨x', before, after, hvs, rfl, hbefore, hmatch⟩ := split_shown hshown
    obtain rfl := Option.some.inj (hmatch.symm.trans hx)
    have hmem : x' ∈ vs := by
      rw [hvs]
      simp
    obtain ⟨y, hy, hname⟩ := match?_real hmem (hother x' hmem rfl)
    obtain ⟨z, hz, hzname⟩ := findValue?_shown nm d cs rfl hbefore fun w hw he =>
      hreal ⟨w, hvs ▸ hw, he⟩
    exact ⟨z, y, hvs ▸ hz, hzname ▸ hy, hname⟩

end Converter

end ShapeSchema
