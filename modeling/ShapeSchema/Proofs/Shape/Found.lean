import Mathlib.Data.List.Nodup
import ShapeSchema.Proofs.Shape.Built

/-!
# Definitions that a built schema finds

If no two classes have the same name, a schema finds under the name of a struct, variant or entry
the class that stands for it (`found_definition`); names of enums are distinct anyway, so that it
finds the enum as well (`found_enum`).
-/

namespace ShapeSchema.Builder

variable {g : Graph} {tag : String} {s : BuildState} (target : Ty Authored)

/-- No two structs, variants and entries have classes of the same name. -/
def DistinctClasses (g : Graph) (names : List (ShapeId × String)) : Prop :=
  ((classSources g names).map ClassSource.className).Nodup

theorem source_unique {names : List (ShapeId × String)} (h : DistinctClasses g names)
    {a b : ClassSource} (ha : a ∈ classSources g names) (hb : b ∈ classSources g names)
    (he : a.className = b.className) : a = b := List.inj_on_of_nodup_map h ha hb he

/-- Structs and variants that have classes belong to the shapes that have names. -/
theorem group_of_source {p : ShapeId × String} {src : ClassSource} (hsrc : src ∈ sourcesOf g p) :
    match src with
    | .struct id _ => id = p.1
    | .variant id _ v => id = p.1 ∧ v.fields ∈ (g.shape p.1).fieldGroups
    | .entry _ _ _ _ => True := by
  have entry {id : ShapeId} {owner : String} {v : Option Variant} {fields : List Field}
      (h : src ∈ entrySources g id owner v fields) : ∃ f, src = .entry id owner v f := by
    obtain ⟨f, -, rfl⟩ := List.mem_map.1 h
    exact ⟨f, rfl⟩
  unfold sourcesOf at hsrc
  split at hsrc
  · rcases List.mem_cons.1 hsrc with rfl | h
    · rfl
    · obtain ⟨f, rfl⟩ := entry h
      trivial
  · next hs =>
    split at hsrc
    · obtain ⟨v, hv, hsrc⟩ := List.mem_flatMap.1 hsrc
      rcases List.mem_cons.1 hsrc with rfl | h
      · exact ⟨rfl, hs ▸ List.mem_map_of_mem hv⟩
      · obtain ⟨f, rfl⟩ := entry h
        trivial
    · cases hsrc
  · cases hsrc

/-- Once nothing is being walked, everything is registered that a named struct or enum refers to. -/
theorem complete_of_named (hs : Sound g tag (fun _ => False) s) {p : ShapeId × String}
    (hp : p ∈ s.names) : ∃ t, Complete g tag s p.1 t := by
  obtain ⟨⟨id, t⟩, ht, hid⟩ := List.mem_map.1 (hs.named p hp)
  exact ⟨t, hid ▸ (hs.visited _ ht).2.resolve_left not_false⟩

theorem found_definition (hs : Sound g tag (fun _ => False) s) (hd : DistinctClasses g s.names)
    {src : ClassSource} (hsrc : src ∈ classSources g s.names) (hc : HasClass s src.className) :
    ∃ c, (s.registry.freeze target).findClass? src.className .complete = some c ∧
      Defines g tag s src c := by
  obtain ⟨c₀, hc₀, hname₀⟩ := hc
  obtain ⟨src₀, hsrc₀, hdef₀⟩ := hs.classes c₀ hc₀
  have hsorted : ∀ c, c ∈ s.registry.classes.mergeSort Registry.classLe ↔ c ∈ s.registry.classes :=
    fun c => List.mem_mergeSort
  show ∃ c, (s.registry.classes.mergeSort Registry.classLe).find? _ = some c ∧ _
  cases hf : (s.registry.classes.mergeSort Registry.classLe).find? fun c =>
      c.name.real == src.className && c.mode == .complete with
  | none =>
    have := List.find?_eq_none.1 hf c₀ ((hsorted c₀).2 hc₀)
    rw [hname₀, hdef₀.mode] at this
    simp at this
  | some c =>
    obtain ⟨src', hsrc', hdef'⟩ := hs.classes c ((hsorted c).1 (List.mem_of_find?_eq_some hf))
    have hname := List.find?_some hf
    simp only [Bool.and_eq_true, beq_iff_eq] at hname
    have := source_unique hd hsrc' hsrc (hdef'.name.symm.trans hname.1)
    subst this
    exact ⟨c, rfl, hdef'⟩

theorem found_class (hs : Sound g tag (fun _ => False) s) (hd : DistinctClasses g s.names)
    {src : ClassSource} (hsrc : src ∈ classSources g s.names) (hc : HasClass s src.className) :
    ∃ c, (s.registry.freeze target).findClass? src.className .complete = some c ∧
      DefinesClass g tag s src c.fields := by
  obtain ⟨c, hfound, hdef⟩ := found_definition target hs hd hsrc hc
  exact ⟨c, hfound, hdef.fields⟩

theorem found_enum (hs : Sound g tag (fun _ => False) s) {id : ShapeId} {n : String}
    (hn : Entries.find? s.names id = some n) (he : ∃ e ∈ s.registry.enums, e.name.real = n) :
    ∃ e, (s.registry.freeze target).findEnum? n = some e ∧ DefinesEnum g (id, n) e := by
  obtain ⟨e₀, he₀, hname₀⟩ := he
  have hsorted : ∀ e, (e ∈ s.registry.enums.mergeSort fun a b => Text.le a.name.real b.name.real) ↔
      e ∈ s.registry.enums := fun e => List.mem_mergeSort
  show ∃ e, (s.registry.enums.mergeSort _).find? _ = some e ∧ _
  cases hf : (s.registry.enums.mergeSort fun a b => Text.le a.name.real b.name.real).find?
      fun e => e.name.real == n with
  | none =>
    have := List.find?_eq_none.1 hf e₀ ((hsorted e₀).2 he₀)
    simp [hname₀] at this
  | some e =>
    obtain ⟨p, hp, hdef⟩ := hs.enums e ((hsorted e).1 (List.mem_of_find?_eq_some hf))
    have hname := List.find?_some hf
    simp only [beq_iff_eq] at hname
    obtain ⟨d, own, u, vs, hshape, rfl⟩ := hdef
    have hmem : (id, n) ∈ s.names := Entries.mem_of_find?_eq_some hn
    have : p = (id, n) := List.inj_on_of_nodup_map hs.names.2 hp hmem hname
    subst this
    exact ⟨_, rfl, d, own, u, vs, hshape, rfl⟩

end ShapeSchema.Builder
