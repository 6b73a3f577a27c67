import Mathlib.Logic.Relation
import ShapeSchema.Proofs.Convert.Writing
import ShapeSchema.Proofs.Shape.Inhabits

/-!
# Places in a native value

A place is a part of a native value with the shape that is asked of it there and the way in which it
is to be written. Whether a value is well typed at every depth is a question to each of its places
(`Place.WellTyped`), and so is whether the writer takes it (`Place.Takes`). `Place.fits_iff_exact`
compares the two at one place: of what a shape asks the writer leaves out what `Place.Exact` lists.
-/

namespace ShapeSchema

/-! ## Everywhere in a tree -/

section
variable {α : Type} {next more : α → List α} {P : α → Prop} {a : α}

/-- A property of something and of all that is met when it is taken apart. -/
def Everywhere (next : α → List α) (P : α → Prop) (a : α) : Prop :=
  ∀ b, Relation.ReflTransGen (fun a b => b ∈ next a) a b → P b

theorem everywhere_iff : Everywhere next P a ↔ P a ∧ ∀ b ∈ next a, Everywhere next P b := by
  constructor
  · exact fun h => ⟨h a .refl, fun b hb c hc => h c (.head hb hc)⟩
  · rintro ⟨ha, hnext⟩ b hb
    rcases hb.cases_head with rfl | ⟨c, hc, hcb⟩
    · exact ha
    · exact hnext c hc b hcb

theorem Everywhere.self (h : Everywhere next P a) : P a := h a .refl

theorem Everywhere.part (h : Everywhere next P a) {b : α} (hb : b ∈ next a) :
    Everywhere next P b := (everywhere_iff.1 h).2 b hb

theorem everywhere_append : Everywhere (fun a => next a ++ more a) P a ↔
    Everywhere next (fun b => P b ∧ ∀ k ∈ more b, Everywhere (fun a => next a ++ more a) P k) a := by
  constructor
  · intro h b hb
    have hwhole : Relation.ReflTransGen (fun a b => b ∈ next a ++ more a) a b :=
      Relation.ReflTransGen.mono (fun _ _ hb => List.mem_append_left _ hb) a b hb
    exact ⟨h b hwhole, fun k hk c hc =>
      h c (hwhole.trans (.head (List.mem_append_right _ hk) hc))⟩
  · intro h b hb
    induction hb using Relation.ReflTransGen.head_induction_on with
    | refl => exact h.self.1
    | @head a c hac hcb ih =>
      rcases List.mem_append.1 hac with hc | hc
      · exact ih (h.part hc)
      · exact h.self.2 c hc b hcb

end

/-! ## Places -/

/-- How a value is written: by its shape, or in the way that a field chose for the whole numbers or
the maps in it. -/
inductive Manner where
  | plain
  | ints (repr : IntRepr)
  | keyed (repr : KeyRepr)
deriving DecidableEq

/-- The manner that a field chooses. -/
def Field.manner (f : Field) : Manner :=
  match f.intRepr, f.keyRepr with
  | some repr, _ => .ints repr
  | none, some repr => .keyed repr
  | none, none => .plain

/-- A native value, the shape it is to have and the manner in which it is written. -/
structure Place where
  manner : Manner
  id : ShapeId
  value : Native

/-! ## What shapes ask of values -/

/-- Values of a scalar; a wide whole number may be a number. -/
def Scalar.Types (x : Scalar) (v : Native) : Prop :=
  match x with
  | .bool => ∃ b, v = .bool b
  | .char => ∃ t : String, v = .text t ∧ t.toList.length = 1
  | .string => ∃ t, v = .text t
  | .f32 | .f64 => ∃ d, v = .number d
  | .unit => v = .null
  | x => ∃ n, v.toInt? = some n ∧ x.admits n = true ∧ (x.isNarrow = true → ∀ m, v ≠ .big m)

/-- Values of a list; an array may stand for a set. -/
def Collection.Types (kind : Collection) (v : Native) : Prop :=
  ∃ items, (v = .array items ∨ kind = .set ∧ v = .set items) ∧ kind.FitsLength items.length

/-- A text that is the text of a key of this shape. -/
def Graph.NamesKey (g : Graph) (key : ShapeId) (name : String) : Prop :=
  ∃ k, Converter.keyText k .root = .ok name ∧
    match g.land k.isNothing key with
    | .shape _ (.scalar x) => x.Types k
    | .shape _ (.enum _ _ _ vs) =>
      isDataEnum vs = false ∧ (Converter.namedVariant? vs k).isSome = true
    | _ => False

/-- What names the variant of an enum's value: its tag, or the value itself. -/
def Native.naming? (vs : List Variant) (tag : String) (v : Native) : Option Native :=
  if isDataEnum vs then v.members?.map fun ms => answer ms tag else some v

/-- The variant that a value of an enum names. -/
def Native.variant? (vs : List Variant) (tag : String) (v : Native) : Option Variant :=
  (v.naming? vs tag).bind (Converter.namedVariant? vs)

namespace Place

variable (g : Graph) (tag : String)

/-- A map is a map and a plain object is one; the names of its members are texts of keys, unless its
keys are written as values of their own. -/
def FitsKeyed (manner : Manner) (kind : Keyed) (key : ShapeId) (v : Native) : Prop :=
  match kind, v with
  | .map, .map _ => True
  | .object, .object ms => manner ≠ .keyed .pairs → ∀ p ∈ ms, g.NamesKey key p.1
  | _, _ => False

/-- A value is what its shape asks for, its parts left aside. -/
def Fits (p : Place) : Prop :=
  match g.land p.value.isNothing p.id with
  | .null => True
  | .shape _ (.scalar x) => x.Types p.value
  | .shape _ (.list kind _) => kind.Types p.value
  | .shape _ (.map kind key _) => FitsKeyed g p.manner kind key p.value
  | .shape _ (.struct _ _) => p.value.members?.isSome = true
  | .shape _ (.enum _ own _ vs) => (p.value.variant? vs (own.getD tag)).isSome = true
  | _ => False

/-! ## Parts -/

/-- The fields of a struct or variant that are not skipped. -/
def ofFields (fields : List Field) (ms : List (String × Native)) : List Place :=
  (fields.filter fun f => !f.skip).map fun f => ⟨f.manner, f.shape, Native.answer ms f.name⟩

/-- An entry of a map; its key is a value of its own if entries are written as pairs. -/
def ofEntry (manner : Manner) (key value : ShapeId) (e : Native × Native) : List Place :=
  if manner = .keyed .pairs then [⟨.plain, key, e.1⟩, ⟨.plain, value, e.2⟩]
  else [⟨.plain, value, e.2⟩]

/-- The parts of a value that are written as values of their own shapes. -/
def parts (p : Place) : List Place :=
  match g.land p.value.isNothing p.id with
  | .shape _ (.list _ inner) =>
    p.value.items?.elim [] fun items => items.map fun x => ⟨p.manner, inner, x⟩
  | .shape _ (.map _ key value) =>
    p.value.entries?.elim [] fun es => es.flatMap (ofEntry p.manner key value)
  | .shape _ (.struct _ fields) => p.value.members?.elim [] (ofFields fields)
  | .shape _ (.enum _ own _ vs) =>
    (p.value.variant? vs (own.getD tag)).elim [] fun x =>
      p.value.members?.elim [] (ofFields x.fields)
  | _ => []

/-- The keys of a map that are written as texts and not as values of their shape. -/
def keys (p : Place) : List Place :=
  match g.land p.value.isNothing p.id, p.value with
  | .shape _ (.map _ key _), .map es =>
    if p.manner = .keyed .pairs then [] else es.map fun e => ⟨.plain, key, e.1⟩
  | _, _ => []

/-- A value is what its shape asks for at every depth, the keys of its maps included. -/
def WellTyped : Place → Prop :=
  Everywhere (fun p => p.parts g tag ++ p.keys g) (Fits g tag)

/-- The places that the writer comes to from a place. -/
def Reaches (p q : Place) : Prop := Relation.ReflTransGen (fun a b => b ∈ parts g tag a) p q

end Place

/-! ## What the writer asks of values -/

/-- What the writer takes for a scalar. -/
def Scalar.Takes (x : Scalar) (v : Native) : Prop :=
  match x with
  | .bool => ∃ b, v = .bool b
  | .char | .string => ∃ t, v = .text t
  | .f32 | .f64 => ∃ d, v = .number d
  | .unit => True
  | x => ∃ n, v.toInt? = some n ∧ x.admits n = true ∧ fitsInt64 n = true

/-- What the writer takes for a whole number that is written in another way. -/
def IntRepr.Takes (repr : IntRepr) (v : Native) : Prop :=
  ∃ n, v.toInt? = some n ∧ (repr = .int64 → fitsInt64 n = true)

/-- What the writer takes for a scalar in a manner. -/
def Manner.TakesScalar (manner : Manner) (x : Scalar) (v : Native) : Prop :=
  match manner with
  | .ints repr => repr.Takes v
  | _ => x.Takes v

/-- What the writer takes for the key of a map. -/
def Manner.TakesKey (manner : Manner) (k : Native) : Prop :=
  match manner with
  | .plain => ∃ t, k = .text t
  | .keyed .text => ∃ t, Converter.keyText k .root = .ok t
  | _ => True

namespace Place

variable (g : Graph) (tag : String)

/-- The writer takes a value at a place, its parts left aside. -/
def Takes (p : Place) : Prop :=
  match g.land p.value.isNothing p.id with
  | .null => True
  | .shape _ (.scalar x) => p.manner.TakesScalar x p.value
  | .shape _ (.list _ _) => p.value.items?.isSome = true
  | .shape _ (.map _ _ _) =>
    ∃ es, p.value.entries? = some es ∧ ∀ e ∈ es, p.manner.TakesKey e.1
  | .shape _ (.struct _ _) => p.value.members?.isSome = true
  | .shape _ (.enum _ own _ vs) => (p.value.variant? vs (own.getD tag)).isSome = true
  | _ => False

/-- What is to name a variant has no text, so that not even the message about it can be written. -/
def Mute (p : Place) : Prop :=
  match g.land p.value.isNothing p.id with
  | .shape _ (.enum _ own _ vs) =>
    ∃ x, p.value.naming? vs (own.getD tag) = some x ∧ x.spoken? = none
  | _ => False

end Place

/-! ## What the writer leaves out -/

/-- What the writer does not ask of a scalar: that a character is one, that the unit is null, that a
narrow whole number is a number, and, where a field writes whole numbers in another way, that they
are in range. -/
structure Scalar.Exact (x : Scalar) (v : Native) : Prop where
  char : x = .char → ∀ t, v = .text t → t.toList.length = 1
  unit : x = .unit → v = .null
  narrow : x.isNarrow = true → ∀ n, v ≠ .big n
  range : x.isInteger = true → ∀ n, v.toInt? = some n → x.admits n = true

namespace Scalar

variable {x : Scalar} {v : Native}

theorem types_integer (hx : x.isInteger = true) : x.Types v ↔
    ∃ n, v.toInt? = some n ∧ x.admits n = true ∧ (x.isNarrow = true → ∀ m, v ≠ .big m) := by
  cases x <;> first | rfl | cases hx

theorem takes_integer (hx : x.isInteger = true) : x.Takes v ↔
    ∃ n, v.toInt? = some n ∧ x.admits n = true ∧ fitsInt64 n = true := by
  cases x <;> first | rfl | cases hx

theorem exact_integer (hx : x.isInteger = true) (hnarrow : x.isNarrow = true → ∀ n, v ≠ .big n)
    (hrange : ∀ n, v.toInt? = some n → x.admits n = true) : x.Exact v where
  char := by
    rintro rfl
    cases hx
  unit := by
    rintro rfl
    cases hx
  narrow := hnarrow
  range _ := hrange

theorem types_iff_of_toInt? (hx : x.isInteger = true) {n : Int} (hn : v.toInt? = some n) :
    x.Types v ↔ x.Exact v := by
  rw [types_integer hx]
  constructor
  · rintro ⟨m, hm, hadmits, hnarrow⟩
    refine exact_integer hx hnarrow fun k hk => ?_
    obtain rfl := Option.some.inj (hm.symm.trans hk)
    exact hadmits
  · exact fun h => ⟨n, hn, h.range hx n hn, h.narrow⟩

theorem types_iff_exact (h : x.Takes v) : x.Types v ↔ x.Exact v := by
  by_cases hx : x.isInteger = true
  · obtain ⟨n, hn, -⟩ := (takes_integer hx).1 h
    exact types_iff_of_toInt? hx hn
  have hexact (hchar : x = .char → ∀ t, v = .text t → t.toList.length = 1)
      (hunit : x = .unit → v = .null) : x.Exact v :=
    ⟨hchar, hunit, fun hnarrow => absurd (by cases x <;> first | rfl | cases hnarrow) hx,
      fun hint => absurd hint hx⟩
  cases x with
  | char =>
    obtain ⟨t, rfl⟩ := h
    refine ⟨?_, fun h => ⟨t, rfl, h.char rfl t rfl⟩⟩
    rintro ⟨u, hu, hone⟩
    cases hu
    exact hexact (fun _ t ht => by cases ht; exact hone) nofun
  | unit => exact ⟨fun h => hexact nofun fun _ => h, fun h => h.unit rfl⟩
  | bool | string | f32 | f64 => exact ⟨fun _ => hexact nofun nofun, fun _ => h⟩
  | _ => exact absurd rfl hx

end Scalar

/-- What the writer does not ask of a list: an array where one is due, of the right length. -/
structure Collection.Exact (kind : Collection) (v : Native) : Prop where
  array : ∀ items, v = .set items → kind = .set
  length : ∀ items, v.items? = some items → kind.FitsLength items.length

theorem Collection.types_iff_exact {kind : Collection} {v : Native} (h : v.items?.isSome = true) :
    kind.Types v ↔ kind.Exact v := by
  constructor
  · rintro ⟨items, rfl | ⟨rfl, rfl⟩, hlen⟩
    · exact ⟨nofun, fun _ hi => Option.some.inj hi ▸ hlen⟩
    · exact ⟨fun _ _ => rfl, fun _ hi => Option.some.inj hi ▸ hlen⟩
  · intro he
    cases v with
    | array items => exact ⟨items, .inl rfl, he.length items rfl⟩
    | set items => exact ⟨items, .inr ⟨he.array items rfl, rfl⟩, he.length items rfl⟩
    | _ => cases h

namespace Place

variable {g : Graph} {tag : String} {p : Place}

/-- A value is what its shape asks for as far as the writer does not ask itself. -/
def Exact (g : Graph) (p : Place) : Prop :=
  match g.land p.value.isNothing p.id with
  | .shape _ (.scalar x) => x.Exact p.value
  | .shape _ (.list kind _) => kind.Exact p.value
  | .shape _ (.map kind key _) => FitsKeyed g p.manner kind key p.value
  | _ => True

/-- What the writer takes fits exactly if nothing is wrong that it does not ask for. -/
theorem fits_iff_exact (hints : ∀ repr sid x, p.manner = .ints repr →
      g.land p.value.isNothing p.id = .shape sid (.scalar x) → x.isInteger = true)
    (h : p.Takes g tag) : p.Fits g tag ↔ p.Exact g := by
  obtain ⟨manner, id, v⟩ := p
  simp only [Fits, Exact, Takes] at hints h ⊢
  cases hl : g.land v.isNothing id with
  | null => rfl
  | endless =>
    rw [hl] at h
    exact h.elim
  | shape sid x =>
    rw [hl] at h
    cases x with
    | scalar x =>
      cases manner with
      | ints repr =>
        obtain ⟨n, hn, -⟩ := h
        exact Scalar.types_iff_of_toInt? (hints repr sid x rfl hl) hn
      | plain | keyed => exact Scalar.types_iff_exact h
    | list => exact Collection.types_iff_exact h
    | map => rfl
    | struct | enum => exact iff_of_true h trivial
    | _ => exact h.elim

end Place

end ShapeSchema
