import ShapeSchema.Convert.Coerce
import ShapeSchema.Proofs.Native.Entries

/-!
# Spellings of a value

A dynamic value may give the fields of its classes under other keys, and texts for the variants of
its enums. Coercion finds its way back (`lookup?_spelled`) if the keys of a class are distinct and
none that stands for a shown name is the real name of another field (`Tells`).
-/

namespace ShapeSchema

/-- Values without parts that name no variant. -/
def Value.isAtom : Value → Bool
  | .list _ | .map _ | .classOf _ _ | .enumOf _ _ => false
  | _ => true

/-- The keys that a value has for the fields of its classes and the texts that it has for the
variants of its enums. -/
structure Spelling where
  /-- The key for a field of a class. -/
  field : String → String → String
  /-- The text for a variant of an enum; without one the variant stays. -/
  text? : String → String → Option String
  /-- Liberties that coercion takes with such values, besides choosing members of unions. -/
  free : List FlagKind := []

namespace Spelling

/-- Every field under its own key, every variant as it is. -/
def own : Spelling := ⟨fun _ k => k, fun _ _ => none, []⟩

variable (sp : Spelling)

mutual

/-- A value with its fields and variants spelled. -/
def spell : Value → Value
  | .list items => .list (spellItems items)
  | .map es => .map (spellEntries id es)
  | .classOf name es => .classOf name (spellEntries (sp.field name) es)
  | .enumOf name variant =>
    match sp.text? name variant with
    | some t => .text t
    | none => .enumOf name variant
  | v => v

def spellItems : List Value → List Value
  | [] => []
  | v :: vs => spell v :: spellItems vs

/-- Entries with their values spelled, under other keys. -/
def spellEntries (key : String → String) : List (String × Value) → List (String × Value)
  | [] => []
  | (k, v) :: es => (key k, spell v) :: spellEntries key es

end

theorem spellItems_eq (items : List Value) : sp.spellItems items = items.map sp.spell := by
  induction items with
  | nil => simp [spellItems]
  | cons v vs ih => simp [spellItems, ih]

theorem spellEntries_eq (key : String → String) (es : List (String × Value)) :
    sp.spellEntries key es = es.map fun p => (key p.1, sp.spell p.2) := by
  induction es with
  | nil => simp [spellEntries]
  | cons p es ih => simp [spellEntries, ih]

@[simp] theorem spell_list (items : List Value) :
    sp.spell (.list items) = .list (items.map sp.spell) := by
  rw [spell, spellItems_eq]

@[simp] theorem spell_map (es : List (String × Value)) :
    sp.spell (.map es) = .map (es.map fun p => (p.1, sp.spell p.2)) := by
  rw [spell, spellEntries_eq]
  rfl

@[simp] theorem spell_classOf (name : String) (es : List (String × Value)) :
    sp.spell (.classOf name es) =
      .classOf name (es.map fun p => (sp.field name p.1, sp.spell p.2)) := by
  rw [spell, spellEntries_eq]

theorem spell_of_isAtom {v : Value} (h : v.isAtom = true) : sp.spell v = v := by
  cases v with
  | list | map | classOf | enumOf => cases h
  | _ => simp [spell]

@[simp] theorem isNull_spell (v : Value) : (sp.spell v).isNull = v.isNull := by
  cases v with
  | enumOf name variant =>
    rw [spell]
    split <;> rfl
  | list | map | classOf => simp [Value.isNull]
  | _ => rw [spell_of_isAtom sp rfl]

theorem variantName?_spell (name variant : String) :
    (sp.spell (.enumOf name variant)).variantName? =
      some ((sp.text? name variant).getD variant) := by
  rw [spell]
  split
  · next h => rw [h]; rfl
  · next h => rw [h]; rfl

mutual

/-- A value spells itself. -/
theorem spell_own (v : Value) : own.spell v = v := by
  match v with
  | .list items => rw [spell, spellItems_own]
  | .map es => rw [spell, spellEntries_own]
  | .classOf name es => rw [spell]; exact congrArg _ (spellEntries_own es)
  | .enumOf name variant => rw [spell, own]
  | .null | .bool _ | .int _ | .float _ | .text _ | .media _ => exact spell_of_isAtom own rfl

theorem spellItems_own (items : List Value) : own.spellItems items = items := by
  match items with
  | [] => rw [spellItems]
  | v :: vs => rw [spellItems, spell_own v, spellItems_own vs]

theorem spellEntries_own (es : List (String × Value)) : own.spellEntries id es = es := by
  match es with
  | [] => rw [spellEntries]
  | (k, v) :: es => rw [spellEntries, spell_own v, spellEntries_own es, id]

end

/-! ## Keys that coercion finds -/

/-- Every field of a class is found under the key that it has: the keys are distinct, and where a
key is the shown name of a field, no key is its real name. -/
structure Tells (key : String → String) (names : List Name) : Prop where
  nodup : (names.map fun n => key n.real).Nodup
  finds : ∀ n ∈ names, key n.real = n.real ∨
    n.shown = some (key n.real) ∧ ∀ m ∈ names, key m.real ≠ n.real

theorem Tells.nodup_real {key : String → String} {names : List Name} (h : Tells key names) :
    (names.map Name.real).Nodup := by
  have := h.nodup
  rw [← Function.comp_def, ← List.map_map] at this
  exact this.of_map key

theorem lookup?_spelled {key : String → String} {names : List Name} (h : Tells key names)
    {es : List (String × Value)} (hkeys : Entries.keys es = names.map Name.real) {n : Name}
    (hn : n ∈ names) {v : Value} (hv : (n.real, v) ∈ es) :
    n.lookup? (es.map fun p => (key p.1, sp.spell p.2)) = some (sp.spell v) := by
  have hspelled : Entries.keys (es.map fun p => (key p.1, sp.spell p.2)) =
      names.map fun n => key n.real := by
    have := congrArg (List.map key) hkeys
    unfold Entries.keys at this ⊢
    rw [List.map_map, List.map_map] at this
    rwa [List.map_map]
  have nd : (Entries.keys (es.map fun p => (key p.1, sp.spell p.2))).Nodup := hspelled ▸ h.nodup
  have found : Entries.find? (es.map fun p => (key p.1, sp.spell p.2)) (key n.real) =
      some (sp.spell v) :=
    Entries.find?_eq_some_of_mem nd (List.mem_map.2 ⟨_, hv, rfl⟩)
  unfold Name.lookup?
  rcases h.finds n hn with hreal | ⟨hshown, hfree⟩
  · rw [← hreal, found]
    rfl
  · have hnone : Entries.find? (es.map fun p => (key p.1, sp.spell p.2)) n.real = none := by
      rw [Entries.find?_eq_none, hspelled, List.mem_map]
      rintro ⟨m, hm, he⟩
      exact hfree m hm he
    rw [hnone, hshown, Option.none_or, Option.bind_some, found]

end Spelling

end ShapeSchema
