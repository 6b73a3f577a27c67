import ShapeSchema.Proofs.Convert.Places
import ShapeSchema.Proofs.Convert.Reading
import ShapeSchema.Proofs.Shape.Built

/-!
# Places whose shapes have types

Once a schema is built, the writer has an answer for the shape of every place that it comes to:
`Suits` says what the manner of a place asks of its shape, and `Placed.parts` that the parts of such
a place are such places. A part weighs less than the whole (`weight_of_part`), so what holds of all
places is shown by induction on the weight.
-/

namespace ShapeSchema.Converter

open Builder Place

/-- Writes a value in a manner; `ctx` names the entries of maps. -/
def writeAs (c : Converter) (m : Manner) (ctx : FieldContext) (id : ShapeId) (v : Native)
    (path : Path) : Except Fault Value :=
  match m with
  | .plain => c.write id v path
  | .ints repr => c.writeInts repr id v path
  | .keyed repr => c.writeKeyed repr ctx id v path

/-- Reads a value in a manner. -/
def readAs (c : Converter) (m : Manner) (ctx : FieldContext) (id : ShapeId) (v : Value)
    (path : Path) : Except Fault Native :=
  match m with
  | .plain => c.read id v path
  | .ints repr => c.readInts repr id v path
  | .keyed repr => c.readKeyed repr ctx id v path

theorem writeField_eq_writeAs {c : Converter} {f : Field} (hcodec : f.codec = none)
    (ctx : FieldContext) (v : Native) (path : Path) :
    c.writeField f ctx v path = c.writeAs f.manner ctx f.shape v path := by
  rw [writeField, hcodec]
  unfold writeAs Field.manner
  cases f.intRepr with
  | some repr => rfl
  | none => cases f.keyRepr <;> rfl

section
variable {c : Converter} {m : Manner} {ctx : FieldContext} {id sid : ShapeId} {path : Path}
  {v : Native} {w : Value}

theorem writeAs_null (hl : c.graph.land v.isNothing id = .null) :
    c.writeAs m ctx id v path = .ok .null := by
  unfold writeAs
  cases m with
  | plain | ints | keyed =>
    simp only
    first | rw [write, hl] | rw [writeInts, hl] | rw [writeKeyed, hl]

/-- Writing depends on where options and pointers lead to. -/
theorem writeAs_of_land (h : c.graph.land v.isNothing id = c.graph.land v.isNothing sid) :
    c.writeAs m ctx id v path = c.writeAs m ctx sid v path := by
  cases m with
  | plain =>
    show c.write id v path = c.write sid v path
    rw [write, h, ← write]
  | ints repr =>
    show c.writeInts repr id v path = c.writeInts repr sid v path
    rw [writeInts, h, ← writeInts]
  | keyed repr =>
    show c.writeKeyed repr ctx id v path = c.writeKeyed repr ctx sid v path
    rw [writeKeyed, h, ← writeKeyed]

theorem read_of_land {n : Native} (h : c.graph.land w.isNull id = c.graph.land w.isNull sid) :
    c.read id w path = .ok n ↔ c.read sid w path = .ok n := by
  by_cases hm : ∃ x, w = .media x
  · obtain ⟨x, rfl⟩ := hm
    exact iff_of_false read_media_ne_ok read_media_ne_ok
  · have hw (x : Media) : w ≠ .media x := fun h => hm ⟨x, h⟩
    rw [read, read, h]
    · exact hw
    · exact hw

/-- What is read depends on where options and pointers lead to. -/
theorem readAs_of_land {n : Native} (h : c.graph.land w.isNull id = c.graph.land w.isNull sid) :
    c.readAs m ctx id w path = .ok n ↔ c.readAs m ctx sid w path = .ok n := by
  cases m with
  | plain => exact read_of_land h
  | ints repr =>
    show c.readInts repr id w path = _ ↔ c.readInts repr sid w path = _
    rw [readInts, h, ← readInts]
  | keyed repr =>
    show c.readKeyed repr ctx id w path = _ ↔ c.readKeyed repr ctx sid w path = _
    rw [readKeyed, h, ← readKeyed]

/-- Structs, enums and scalars are written alike in all manners but that for whole numbers. -/
theorem writeAs_other {x : Shape} (hl : c.graph.land v.isNothing id = .shape sid x)
    (hm : ∀ repr, m ≠ .ints repr) (hx : x.isDeclared = true ∨ ∃ y, x = .scalar y) :
    c.writeAs m ctx id v path = c.write sid v path := by
  cases m with
  | ints repr => exact absurd rfl (hm repr)
  | plain =>
    have hown : c.writeAs .plain ctx id v path = c.writeAs .plain ctx sid v path :=
      writeAs_of_land (hl.trans ((Graph.landsAt_of_land hl).land _).symm)
    exact hown
  | keyed => exact writeKeyed_other hl hx

section
variable {d : Declared} {fields : List Field} {own : Option String} {u : Bool} {vs : List Variant}
  {n : Native}

end

end

/-! ## Manners and shapes -/

/-- A shape has a type for values that are written in a manner. -/
def HasManner (g : Graph) (s : BuildState) (m : Manner) (id : ShapeId) : Prop :=
  match m with
  | .plain => ∃ t, HasType g s id t
  | .ints repr => ∃ t, IntType g repr id t
  | .keyed repr => ∃ f ctx t, KeyType g s repr f ctx id t

/-- What a shape that is neither option nor pointer needs for a manner. -/
def Suits (g : Graph) (s : BuildState) (m : Manner) (id : ShapeId) (x : Shape) : Prop :=
  match x with
  | .scalar x => (∀ repr, m = .ints repr → x.isInteger = true) ∧
      ((∀ repr, m ≠ .ints repr) → ∃ t, scalarType? x = some t)
  | .list _ inner => HasManner g s m inner
  | .map kind key value => (∀ repr, m ≠ .ints repr) ∧ HasManner g s .plain value ∧
      (m = .plain → keyAllowed kind (g.unwrap key)) ∧
      (m = .keyed .pairs → HasManner g s .plain key)
  | .struct _ _ | .enum _ _ _ _ => (∀ repr, m ≠ .ints repr) ∧ ∃ t, Entries.find? s.visited id = some t
  | _ => False

section
variable {g : Graph} {s : BuildState} {m : Manner} {id sid : ShapeId} {isNull : Bool}

theorem HasManner.ends (h : HasManner g s m id) : ∃ n, g.Ends isNull id n := by
  cases m with
  | plain => exact ends_of_hasType h.choose_spec
  | ints => exact ends_of_intType h.choose_spec
  | keyed =>
    obtain ⟨f, ctx, t, ht⟩ := h
    exact ends_of_keyType ht

theorem suits_of_hasType {x : Shape} {t : Ty Authored} (hlands : g.LandsAt id sid x)
    (h : HasType g s sid t) : Suits g s .plain sid x := by
  have hs := hlands.shape
  cases h with
  | declared hd hfound =>
    rw [hs] at hd
    cases x with
    | struct | enum => exact ⟨nofun, _, hfound⟩
    | _ => cases hd
  | scalar hs' htype =>
    obtain rfl := hs.symm.trans hs'
    exact ⟨nofun, fun _ => ⟨_, htype⟩⟩
  | list hs' hinner =>
    obtain rfl := hs.symm.trans hs'
    exact ⟨_, hinner⟩
  | map hs' hkey hvalue =>
    obtain rfl := hs.symm.trans hs'
    exact ⟨nofun, ⟨_, hvalue⟩, fun _ => hkey, nofun⟩
  | option hs' => exact absurd hs' hlands.ne_option
  | pointer hs' => exact absurd hs' hlands.ne_pointer

theorem suits_of_intType {repr : IntRepr} {x : Shape} {t : Ty Authored}
    (hlands : g.LandsAt id sid x) (h : IntType g repr sid t) : Suits g s (.ints repr) sid x := by
  have hs := hlands.shape
  cases h with
  | scalar hs' hint =>
    obtain rfl := hs.symm.trans hs'
    exact ⟨fun _ _ => hint, fun h => absurd rfl (h repr)⟩
  | list hs' hinner =>
    obtain rfl := hs.symm.trans hs'
    exact ⟨_, hinner⟩
  | option hs' => exact absurd hs' hlands.ne_option
  | pointer hs' => exact absurd hs' hlands.ne_pointer

theorem suits_of_keyType {repr : KeyRepr} {f : Field} {ctx : FieldContext} {x : Shape}
    {t : Ty Authored} (hlands : g.LandsAt id sid x) (h : KeyType g s repr f ctx sid t) :
    Suits g s (.keyed repr) sid x := by
  have hs := hlands.shape
  cases h with
  | list hs' hinner =>
    obtain rfl := hs.symm.trans hs'
    exact ⟨_, _, _, hinner⟩
  | text hs' _ hrepr hvalue =>
    obtain rfl := hs.symm.trans hs'
    subst hrepr
    exact ⟨nofun, ⟨_, hvalue⟩, nofun, nofun⟩
  | pairs hs' _ _ hkey hvalue =>
    obtain rfl := hs.symm.trans hs'
    exact ⟨nofun, ⟨_, hvalue⟩, nofun, fun _ => ⟨_, hkey⟩⟩
  | other hplain ht =>
    rw [hs] at hplain
    have hsuits := suits_of_hasType hlands ht
    cases x with
    | scalar => exact ⟨nofun, fun _ => hsuits.2 nofun⟩
    | struct | enum => exact ⟨nofun, hsuits.2⟩
    | _ => rcases hplain with h | ⟨_, h⟩ <;> cases h
  | option hs' => exact absurd hs' hlands.ne_option
  | pointer hs' => exact absurd hs' hlands.ne_pointer

theorem HasManner.suits {x : Shape} (h : HasManner g s m id)
    (hl : g.land isNull id = .shape sid x) : Suits g s m sid x := by
  have hlands := Graph.landsAt_of_land hl
  cases m with
  | plain =>
    obtain ⟨t, ht⟩ := h
    obtain ⟨u, hu, -⟩ := (passes_hasType s).land hl ht
    exact suits_of_hasType hlands hu
  | ints repr =>
    obtain ⟨t, ht⟩ := h
    obtain ⟨u, hu, -⟩ := (passes_intType repr).land hl ht
    exact suits_of_intType hlands hu
  | keyed repr =>
    obtain ⟨f, ctx, t, ht⟩ := h
    obtain ⟨u, hu, -⟩ := (passes_keyType s repr f ctx).land hl ht
    exact suits_of_keyType hlands hu

theorem hasManner_of_bareType {f : Field} {ctx : FieldContext} {t : Ty Authored}
    (h : BareType g s f ctx t) : HasManner g s f.manner f.shape := by
  unfold Field.manner
  cases h with
  | ints hr ht =>
    rw [hr]
    exact ⟨t, ht⟩
  | keyed hi hr ht =>
    rw [hi, hr]
    exact ⟨f, ctx, t, ht⟩
  | plain hi hr ht =>
    rw [hi, hr]
    exact ⟨t, ht⟩

/-- The shape of a place has a type, and nothing below it has a codec. -/
structure Placed (g : Graph) (s : BuildState) (p : Place) : Prop where
  free : g.Below Shape.CodecFree p.id
  manner : HasManner g s p.manner p.id

theorem hasManner_of_fields {owner : String} {variant : Option Variant} {fields : List Field}
    {defs : List FieldDef} (hdefs : DefinesFields g s owner variant fields defs) {f : Field}
    (hf : f ∈ fields) (hskip : f.skip = false) : HasManner g s f.manner f.shape := by
  have hmem : f ∈ fields.filter fun f => !f.skip := List.mem_filter.2 ⟨hf, by rw [hskip]; rfl⟩
  obtain ⟨d, -, hdef⟩ := exists_of_forall₂ (List.Forall₂.flip hdefs) hmem
  obtain ⟨t, ht, -⟩ := hdef.bare
  exact hasManner_of_bareType ht

theorem placed_of_fields {owner : String} {variant : Option Variant} {fields : List Field}
    {defs : List FieldDef} {ms : List (String × Native)} (hfree : g.Below Shape.CodecFree sid)
    (hgroup : fields ∈ (g.shape sid).fieldGroups)
    (hdefs : DefinesFields g s owner variant fields defs) :
    ∀ q ∈ ofFields fields ms, Placed g s q := by
  intro q hq
  obtain ⟨f, hf, rfl⟩ := List.mem_map.1 hq
  obtain ⟨hf, hskip⟩ := List.mem_filter.1 hf
  exact ⟨hfree.child (Shape.mem_children_of_field hgroup hf),
    hasManner_of_fields hdefs hf (by simpa using hskip)⟩

variable {tag : String} {p : Place}

theorem mem_fieldGroups_enum {d : Declared} {own : Option String} {u : Bool} {vs : List Variant}
    {x : Variant} (hs : g.shape sid = .enum d own u vs) (hx : x ∈ vs) :
    x.fields ∈ (g.shape sid).fieldGroups := by
  rw [hs]
  exact List.mem_map_of_mem hx

/-- A variant with fields is one of a data enum. -/
theorem isDataEnum_of_field {vs : List Variant} {x : Variant} {f : Field} (hx : x ∈ vs)
    (hf : f ∈ x.fields) : isDataEnum vs = true :=
  List.any_eq_true.2 ⟨x, hx, by
    cases hfields : x.fields with
    | nil => rw [hfields] at hf; cases hf
    | cons => rfl⟩

theorem mem_of_variant? {vs : List Variant} {x : Variant} {v : Native}
    (h : v.variant? vs tag = some x) : x ∈ vs := by
  obtain ⟨y, -, hy⟩ := Option.bind_eq_some_iff.1 h
  exact mem_of_namedVariant? hy

theorem definesFields_of_complete {d : Declared} {fields : List Field} {t : Ty Authored}
    (h : Complete g tag s sid t) (hs : g.shape sid = .struct d fields) :
    ∃ owner defs, DefinesFields g s owner none fields defs := by
  cases h with
  | struct hs' _ _ hdefs =>
    cases hs.symm.trans hs'
    exact ⟨_, _, hdefs⟩
  | variants hs' | texts hs' | enumRef hs' => cases hs.symm.trans hs'

theorem hasVariant_of_complete {d : Declared} {own : Option String} {u : Bool} {vs : List Variant}
    {x : Variant} {t : Ty Authored} (h : Complete g tag s sid t)
    (hs : g.shape sid = .enum d own u vs) (hdata : isDataEnum vs = true) (hx : x ∈ vs) :
    ∃ owner, HasVariant g (own.getD tag) s owner x := by
  cases h with
  | variants hs' _ _ hvariants =>
    cases hs.symm.trans hs'
    exact ⟨_, hvariants x hx⟩
  | struct hs' => cases hs.symm.trans hs'
  | texts hs' hunit | enumRef hs' hunit =>
    cases hs.symm.trans hs'
    cases hdata.symm.trans hunit

/-- The parts of a place have types as well. -/
theorem Placed.parts (hsound : Sound g tag (fun _ => False) s) (h : Placed g s p) :
    ∀ q ∈ p.parts g tag, Placed g s q := by
  obtain ⟨m, id, v⟩ := p
  intro q hq
  unfold Place.parts at hq
  simp only at hq
  cases hl : g.land v.isNothing id with
  | null | endless =>
    rw [hl] at hq
    cases hq
  | shape sid x =>
    have hlands := Graph.landsAt_of_land hl
    have hfree := h.free.land hlands
    have hsuits := h.manner.suits hl
    have hs := hlands.shape
    rw [hl] at hq
    cases x with
    | list kind inner =>
      obtain ⟨items, -, hq⟩ := mem_elim_nil.1 hq
      obtain ⟨x, -, rfl⟩ := List.mem_map.1 hq
      exact ⟨hfree.item hs, hsuits⟩
    | map kind key value =>
      obtain ⟨es, -, hq⟩ := mem_elim_nil.1 hq
      obtain ⟨e, -, hq⟩ := List.mem_flatMap.1 hq
      unfold ofEntry at hq
      split at hq
      · next hm =>
        rcases List.mem_pair.1 hq with rfl | rfl
        · exact ⟨hfree.key hs, hsuits.2.2.2 hm⟩
        · exact ⟨hfree.value hs, hsuits.2.1⟩
      · obtain rfl := List.mem_singleton.1 hq
        exact ⟨hfree.value hs, hsuits.2.1⟩
    | struct d fields =>
      obtain ⟨-, t, ht⟩ := hsuits
      obtain ⟨ms, -, hq⟩ := mem_elim_nil.1 hq
      obtain ⟨_, _, hdefs⟩ := definesFields_of_complete (hsound.complete ht) hs
      exact placed_of_fields hfree (by rw [hs]; exact List.mem_cons_self) hdefs q hq
    | enum d own u vs =>
      obtain ⟨-, t, ht⟩ := hsuits
      obtain ⟨x, hx, hq⟩ := mem_elim_nil.1 hq
      obtain ⟨ms, -, hq⟩ := mem_elim_nil.1 hq
      have hmem := mem_of_variant? hx
      obtain ⟨f, hf, -⟩ := List.mem_map.1 hq
      have hdata := isDataEnum_of_field hmem (List.mem_filter.1 hf).1
      obtain ⟨_, -, -, defs, hdefs⟩ := hasVariant_of_complete (hsound.complete ht) hs hdata hmem
      exact placed_of_fields hfree (mem_fieldGroups_enum hs hmem) hdefs q hq
    | _ => cases hq

theorem weight_of_part {q : Place} (hq : q ∈ p.parts g tag) : q.value.weight < p.value.weight := by
  have member {fields : List Field} {ms : List (String × Native)} (hms : p.value.members? = some ms)
      (hq : q ∈ ofFields fields ms) : q.value.weight < p.value.weight := by
    obtain ⟨f, -, rfl⟩ := List.mem_map.1 hq
    exact Native.weight_answer hms f.name
  unfold Place.parts at hq
  split at hq
  · obtain ⟨items, hitems, hq⟩ := mem_elim_nil.1 hq
    obtain ⟨x, hx, rfl⟩ := List.mem_map.1 hq
    exact Native.weight_item hitems hx
  · obtain ⟨es, hes, hq⟩ := mem_elim_nil.1 hq
    obtain ⟨e, he, hq⟩ := List.mem_flatMap.1 hq
    obtain ⟨hkey, hvalue⟩ := Native.weight_entry hes he
    unfold ofEntry at hq
    split at hq
    · rcases List.mem_pair.1 hq with rfl | rfl
      · exact hkey
      · exact hvalue
    · obtain rfl := List.mem_singleton.1 hq
      exact hvalue
  · obtain ⟨ms, hms, hq⟩ := mem_elim_nil.1 hq
    exact member hms hq
  · obtain ⟨x, -, hq⟩ := mem_elim_nil.1 hq
    obtain ⟨ms, hms, hq⟩ := mem_elim_nil.1 hq
    exact member hms hq
  · cases hq

theorem Placed.everywhere (hsound : Sound g tag (fun _ => False) s) (h : Placed g s p) {q : Place}
    (hq : p.Reaches g tag q) : Placed g s q := by
  induction hq with
  | refl => exact h
  | tail _ hstep ih => exact ih.parts hsound _ hstep

end

end ShapeSchema.Converter
