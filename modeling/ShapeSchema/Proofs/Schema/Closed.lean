import ShapeSchema.Proofs.Native.Entries
import ShapeSchema.Proofs.Ty.Mentions
import ShapeSchema.Schema.Registry

/-!
# Closed schemas

A schema is closed if every definition that a class field or an alias expansion asks for is there, in
the mode in which it is asked for. The fields are those of every class that can be looked up, the
derived ones included. Since deriving a class adds no names (`Ty.mentions_of_streamed`), it is
enough that every name in a registered field or an expansion has a complete definition
(`closed_of_offersAll`).
-/

namespace ShapeSchema.Schema

/-- The definition that a node asks for is there. -/
def Resolves (s : Schema) : Ty Authored → Prop
  | .enumRef name _ _ => (s.findEnum? name).isSome = true
  | .classRef name mode _ _ => (s.findClass? name mode).isSome = true
  | .aliasRef name _ _ => (s.expand? name).isSome = true
  | _ => True

/-- The definitions that a type asks for are there. -/
def Knows (s : Schema) (t : Ty Authored) : Prop := ∀ u ∈ t.nodes, s.Resolves u

/-- Every name that a field of a class or the expansion of an alias mentions resolves. -/
structure Closed (s : Schema) : Prop where
  fields : ∀ name mode d, s.findClass? name mode = some d → ∀ f ∈ d.fields, s.Knows f.type
  expansions : ∀ name e, s.expand? name = some e → s.Knows e

/-- Does a name have a definition? For a class that is the complete one. -/
def offers (s : Schema) : Reference → Bool
  | .enumOf name => (s.findEnum? name).isSome
  | .classOf name => (s.findClass? name .complete).isSome
  | .aliasOf name => (s.expand? name).isSome

/-- Do all names that a type mentions have definitions? -/
def offersAll (s : Schema) (t : Ty Authored) : Bool := t.references.all s.offers

variable {s : Schema}

theorem Knows.list {item : Ty Authored} {a : Authored} (h : s.Knows (.list item a)) :
    s.Knows item := fun u hu => h u (List.mem_cons_of_mem _ hu)

theorem Knows.value {key value : Ty Authored} {a : Authored} (h : s.Knows (.map key value a)) :
    s.Knows value := fun u hu => h u (List.mem_cons_of_mem _ (List.mem_append_right _ hu))

theorem Knows.item {types : List (Ty Authored)} {a : Authored} (h : s.Knows (.tuple types a))
    {t : Ty Authored} (ht : t ∈ types) : s.Knows t := by
  intro u hu
  refine h u (List.mem_cons_of_mem _ ?_)
  rw [Ty.nodesOf_eq_flatMap]
  exact List.mem_flatMap.2 ⟨t, ht, hu⟩

theorem Knows.member {ms : List (Ty Authored)} {null : Option Authored} {a : Authored}
    (h : s.Knows (.union ms null a)) {t : Ty Authored} (ht : t ∈ ms) : s.Knows t := by
  intro u hu
  refine h u (List.mem_cons_of_mem _ (List.mem_append_left _ ?_))
  rw [Ty.nodesOf_eq_flatMap]
  exact List.mem_flatMap.2 ⟨t, ht, hu⟩

/-- A class that can be looked up is registered or derived from a registered one. -/
theorem mem_of_findClass? {name : String} {mode : Mode} {d : ClassDef}
    (h : s.findClass? name mode = some d) : d ∈ s.classes ∨ ∃ c ∈ s.classes, d = c.streamed := by
  have registered : ∀ m c, s.registered? name m = some c → c ∈ s.classes :=
    fun _ _ hc => List.mem_of_find?_eq_some hc
  cases mode with
  | complete => exact .inl (registered _ _ h)
  | partialValue =>
    rcases Option.or_eq_some_iff.1 h with h | ⟨-, h⟩
    · exact .inl (registered _ _ h)
    · obtain ⟨c, hc, rfl⟩ := Option.map_eq_some_iff.1 h
      exact .inr ⟨c, registered _ _ hc, rfl⟩

/-- A complete definition serves both modes. -/
theorem findClass?_of_complete {name : String} (h : (s.findClass? name .complete).isSome = true)
    (mode : Mode) : (s.findClass? name mode).isSome = true := by
  cases mode with
  | complete => exact h
  | partialValue =>
    obtain ⟨d, hd⟩ := Option.isSome_iff_exists.1 h
    have hreg : s.registered? name .complete = some d := hd
    unfold findClass?
    rw [hreg, Option.isSome_or, Option.isSome_map, Option.isSome_some, Bool.or_true]

theorem offersAll_iff {t : Ty Authored} :
    s.offersAll t = true ↔ ∀ r, t.Mentions r → s.offers r = true := by
  unfold offersAll
  rw [List.all_eq_true]
  exact forall_congr' fun r => imp_congr Ty.mem_references Iff.rfl

/-- The fields of a class mention no names that registered fields do not mention. -/
theorem offersAll_of_findClass?
    (hfields : ∀ c ∈ s.classes, ∀ f ∈ c.fields, s.offersAll f.type = true) {name : String}
    {mode : Mode} {d : ClassDef} (h : s.findClass? name mode = some d) :
    ∀ f ∈ d.fields, s.offersAll f.type = true := by
  intro f hf
  rcases mem_of_findClass? h with hd | ⟨c, hc, rfl⟩
  · exact hfields d hd f hf
  · obtain ⟨g, hg, rfl⟩ := List.mem_map.1 hf
    have hoffered := offersAll_iff.1 (hfields c hc g hg)
    exact offersAll_iff.2 fun r hr => hoffered r (Ty.mentions_of_streamed hr)

theorem knows_of_offersAll {t : Ty Authored} (h : s.offersAll t = true) : s.Knows t := by
  intro u hu
  have offered : ∀ r, u.reference? = some r → s.offers r = true :=
    fun r hr => offersAll_iff.1 h r ⟨u, hu, hr⟩
  cases u with
  | enumRef name d a => exact offered _ rfl
  | classRef name mode d a => exact findClass?_of_complete (offered _ rfl) mode
  | aliasRef name mode a => exact offered _ rfl
  | _ => trivial

theorem closed_of_offersAll
    (hfields : ∀ c ∈ s.classes, ∀ f ∈ c.fields, s.offersAll f.type = true)
    (haliases : ∀ p ∈ s.aliases, s.offersAll p.2 = true) : s.Closed where
  fields _ _ _ h f hf := knows_of_offersAll (offersAll_of_findClass? hfields h f hf)
  expansions _ _ h := knows_of_offersAll (haliases _ (Entries.mem_of_find?_eq_some h))

end ShapeSchema.Schema
