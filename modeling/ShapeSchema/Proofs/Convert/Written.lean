import ShapeSchema.Proofs.Convert.Accepts
import ShapeSchema.Proofs.Convert.RoundTrip

/-!
# Values of a shape are written

Writing gets stuck on a value that its shape does not have, on a chain of options and pointers
without end, and on a key that has no text where a field asks for one. A value of a shape whose
schema was built meets none of the three if all keys that a field writes as texts have texts and the
variants of data enums can be told by their names (`written`). The induction is on the weight of the
native value.
-/

namespace ShapeSchema

/-- Where a field writes maps under the texts of their keys, these keys have texts. -/
def Shape.TextKeyed (g : Graph) (s : Shape) : Prop :=
  ∀ fs ∈ s.fieldGroups, ∀ f ∈ fs, f.keyRepr = some .text → ∀ kind key value,
    g.mapBelow? f.shape = some (kind, key, value) → g.TextKey key

/-- Every key of this shape has a text. -/
def Graph.SpokenKey (g : Graph) (key : ShapeId) : Prop :=
  match g.unwrap key with
  | .scalar s => s ≠ .unit
  | .enum _ _ _ variants => isDataEnum variants = false
  | _ => False

/-- Where a field writes maps under the texts of their keys, every key has one. -/
def Shape.KeysSpoken (g : Graph) (s : Shape) : Prop :=
  ∀ fs ∈ s.fieldGroups, ∀ f ∈ fs, f.keyRepr = some .text → ∀ kind key value,
    g.mapBelow? f.shape = some (kind, key, value) → g.SpokenKey key

theorem Graph.TextKey.spoken {g : Graph} {key : ShapeId} (h : g.TextKey key) :
    g.SpokenKey key := by
  unfold TextKey at h
  unfold SpokenKey
  cases hkey : g.unwrap key with
  | scalar x =>
    rw [hkey] at h
    rintro rfl
    simp [Scalar.isInteger, Scalar.range?] at h
  | enum =>
    rw [hkey] at h
    exact h
  | _ =>
    rw [hkey] at h
    exact h.elim

theorem Shape.TextKeyed.spoken {g : Graph} {s : Shape} (h : s.TextKeyed g) : s.KeysSpoken g :=
  fun fs hfs f hf hr kind key value hmap => (h fs hfs f hf hr kind key value hmap).spoken

/-- The variants of a data enum are told by their names. -/
def Shape.VariantsNamed : Shape → Prop
  | .enum _ _ _ variants => isDataEnum variants = true →
    ∀ x ∈ variants, ∀ y ∈ variants, x.name = y.name → x = y
  | _ => True

/-- A shape whose fields are written by their own shapes, and whose keys have texts where they need
them. -/
structure Shape.Writable (g : Graph) (s : Shape) : Prop where
  codecFree : s.CodecFree
  keys : s.TextKeyed g

namespace Converter

open Builder

/-- A schema that was built. The structs and enums that it names and that have a property can be
written. -/
structure Ready (P : Shape → Prop) (g : Graph) (tag : String) (s : BuildState) : Prop where
  sound : Sound g tag (fun _ => False) s
  codecFree : ∀ {x : Shape}, P x → x.CodecFree
  keys : ∀ {id : ShapeId} {n : String}, P (g.shape id) → Entries.find? s.names id = some n →
    (g.shape id).KeysSpoken g
  variants : ∀ {id : ShapeId} {n : String}, P (g.shape id) → Entries.find? s.names id = some n →
    (g.shape id).VariantsNamed

/-! ## Parts that are written -/

section
variable {f f' : Native → Path → Except Fault Value} {v : Native} {g : Graph} {tag : String}
  {sid : ShapeId}

/-- A value is written, wherever it stands. -/
def Writes (f : Native → Path → Except Fault Value) (v : Native) : Prop :=
  ∀ path, ∃ w, f v path = .ok w

theorem Returns.writes {r : Value → Path → Except Fault Native} (h : Returns f r v) : Writes f v :=
  fun path => (h path).imp fun _ hw => hw.1

/-- A list is written if its items are. -/
theorem writes_list {kind : Collection} {inner : ShapeId} (hv : OfShape g tag sid v)
    (hs : g.shape sid = .list kind inner)
    (h : ∀ items, v.items? = some items → ∀ x ∈ items, OfShape g tag inner x → Writes f x)
    (hwrite : ∀ path items ws, v.items? = some items → WritesItems f path items ws →
      f' v path = .ok (.list ws)) : Writes f' v := by
  obtain ⟨items, hitems, -, hinner, -⟩ := cases_list hv hs
  intro path
  obtain ⟨ws, hws⟩ := exists_related (R := fun p y => f p.1 (path.index p.2) = .ok y)
    fun p (hp : p ∈ items.zipIdx) => by
      have hmem : p.1 ∈ items := List.fst_mem_of_mem_zipIdx hp
      exact h items hitems p.1 hmem (hinner p.1 hmem) (path.index p.2)
  exact ⟨.list ws, hwrite path items ws hitems hws⟩

/-- A map is written under the texts of its keys if they have texts and its values are written. -/
theorem writes_entries (textOf : Native → String → Prop) {kind : Keyed} {key value : ShapeId}
    (hv : OfShape g tag sid v) (hs : g.shape sid = .map kind key value)
    (hkey : ∀ k, OfShape g tag key k → (kind = .object → ∃ t, k = .text t) → ∃ t, textOf k t)
    (h : ∀ es, v.entries? = some es → ∀ p ∈ es, OfShape g tag value p.2 → Writes f p.2)
    (hwrite : ∀ path es ws, v.entries? = some es →
      List.Forall₂ (fun p y => textOf p.1 y.1 ∧ f p.2 (path.key y.1) = .ok y.2) es ws →
      f' v path = .ok (.ofEntries ws)) : Writes f' v := by
  obtain ⟨es, hes, -, hkeys, hvalues, htexts, -⟩ := cases_map hv hs
  intro path
  obtain ⟨ws, hws⟩ := exists_related
    (R := fun p (y : String × Value) => textOf p.1 y.1 ∧ f p.2 (path.key y.1) = .ok y.2)
    fun p (hp : p ∈ es) => by
      obtain ⟨t, ht⟩ := hkey p.1 (hkeys p hp) fun ho => htexts ho p hp
      obtain ⟨w, hw⟩ := h es hes p hp (hvalues p hp) (path.key t)
      exact ⟨(t, w), ht, hw⟩
  exact ⟨.ofEntries ws, hwrite path es ws hes hws⟩

/-- A map is written as a list of pairs if its keys and values are written. -/
theorem writes_pairs {kind : Keyed} {key value : ShapeId} (hv : OfShape g tag sid v)
    (hs : g.shape sid = .map kind key value) {fk : Native → Path → Except Fault Value}
    (hk : ∀ es, v.entries? = some es → ∀ p ∈ es, OfShape g tag key p.1 → Writes fk p.1)
    (h : ∀ es, v.entries? = some es → ∀ p ∈ es, OfShape g tag value p.2 → Writes f p.2)
    {name : String}
    (hwrite : ∀ path es ws, v.entries? = some es →
      List.Forall₂ (fun p y => ∃ k x, fk p.1.1 ((path.index p.2).field "key") = .ok k ∧
        f p.1.2 ((path.index p.2).field "value") = .ok x ∧
        y = .classOf name [("key", k), ("value", x)]) es.zipIdx ws → f' v path = .ok (.list ws)) :
    Writes f' v := by
  obtain ⟨es, hes, -, hkeys, hvalues, -, -⟩ := cases_map hv hs
  intro path
  obtain ⟨ws, hws⟩ := exists_related
    (R := fun p (y : Value) => ∃ k x, fk p.1.1 ((path.index p.2).field "key") = .ok k ∧
      f p.1.2 ((path.index p.2).field "value") = .ok x ∧
      y = .classOf name [("key", k), ("value", x)]) fun p (hp : p ∈ es.zipIdx) => by
      have hmem : p.1 ∈ es := List.fst_mem_of_mem_zipIdx hp
      obtain ⟨k, hwk⟩ := hk es hes p.1 hmem (hkeys p.1 hmem) ((path.index p.2).field "key")
      obtain ⟨x, hwx⟩ := h es hes p.1 hmem (hvalues p.1 hmem) ((path.index p.2).field "value")
      exact ⟨_, k, x, hwk, hwx, rfl⟩
  exact ⟨.list ws, hwrite path es ws hes hws⟩

/-- A value is written if it is from where options and pointers lead to. -/
theorem writes_of_land {T : ShapeId → Ty Authored → Prop} (hT : Passes g T) {id : ShapeId}
    {t : Ty Authored} (hv : OfShape g tag id v) (ht : T id t)
    (hwrite : ∀ path, g.land v.isNothing id = .null → f v path = .ok .null)
    (hshape : ∀ {sid s u}, g.land v.isNothing id = .shape sid s → g.LandsAt id sid s → T sid u →
      OfShape g tag sid v → Writes f v) : Writes f v := by
  cases hl : g.land v.isNothing id with
  | null => exact fun path => ⟨.null, hwrite path hl⟩
  | endless => exact absurd hl hv.land_ne_endless
  | shape sid s =>
    obtain ⟨u, hu, -⟩ := hT.land hl ht
    exact hshape hl (Graph.landsAt_of_land hl) hu (hv.of_land hl)

/-- Every scalar but the unit has a text. -/
theorem exists_keyText_scalar {x : Scalar} {k : Native} (hx : x ≠ .unit) (hk : x.Holds k) :
    ∃ t, ∀ path, keyText k path = .ok t := by
  by_cases hint : x.isInteger = true
  · obtain ⟨n, -, rfl⟩ := Scalar.holds_integer hint hk
    split
    · exact ⟨_, fun _ => rfl⟩
    · exact ⟨_, fun _ => rfl⟩
  · cases x with
    | string =>
      obtain ⟨t, rfl⟩ := hk
      exact ⟨t, fun _ => rfl⟩
    | char =>
      obtain ⟨t, rfl, -⟩ := hk
      exact ⟨t, fun _ => rfl⟩
    | bool =>
      obtain ⟨b, rfl⟩ := hk
      exact ⟨_, fun _ => rfl⟩
    | f32 | f64 =>
      obtain ⟨d, rfl⟩ := hk
      exact ⟨_, fun _ => rfl⟩
    | unit => exact absurd rfl hx
    | _ => exact absurd rfl hint

/-- A key has a text where one is asked for. -/
theorem exists_keyText {key : ShapeId} {k : Native} (htext : g.SpokenKey key)
    (hk : OfShape g tag key k) : ∃ t, ∀ path, keyText k path = .ok t := by
  unfold Graph.SpokenKey at htext
  split at htext
  · next s hs => exact exists_keyText_scalar htext (hk.holds_of_unwrap hs)
  · next hs =>
    obtain ⟨sid, hlands, hv⟩ := hk.of_unwrap hs rfl (by rintro _ _ ⟨⟩)
    obtain ⟨x, -, rfl⟩ := hv.cases_texts hlands.shape htext
    exact ⟨x.name, fun _ => rfl⟩
  · exact htext.elim

end

section
variable {P : Shape → Prop} {g : Graph} {tag : String} {s : BuildState} {v : Native}

/-- A value is written at every shape it belongs to. -/
def Written (P : Shape → Prop) (g : Graph) (tag : String) (s : BuildState) (v : Native) : Prop :=
  ∀ {id : ShapeId} {t : Ty Authored}, g.Below P id → HasType g s id t →
    OfShape g tag id v → Writes ((Converter.mk g ⟨s.names, tag⟩).write id) v

/-- The same below a field that writes maps in another way. -/
def WrittenKeyed (P : Shape → Prop) (g : Graph) (tag : String) (s : BuildState) (v : Native) :
    Prop :=
  ∀ (ctx : FieldContext) {repr : KeyRepr} {f : Field} {own : FieldContext} {id : ShapeId}
    {t : Ty Authored}, g.Below P id →
    (repr = .text → ∀ kind key value, g.mapBelow? f.shape = some (kind, key, value) →
      g.SpokenKey key) →
    KeyType g s repr f own id t → OfShape g tag id v →
    Writes ((Converter.mk g ⟨s.names, tag⟩).writeKeyed repr ctx id) v

/-- Everything smaller than a value is written in both ways. -/
def WrittenBelow (P : Shape → Prop) (g : Graph) (tag : String) (s : BuildState) (v : Native) :
    Prop :=
  ∀ x : Native, x.weight < v.weight → Written P g tag s x ∧ WrittenKeyed P g tag s x

/-! ## Fields -/

theorem writes_field (hv : Written P g tag s v) (hk : WrittenKeyed P g tag s v) {owner : String}
    {variant : Option Variant} {f : Field} {d : FieldDef} (ctx : FieldContext)
    (hcodec : f.codec = none)
    (hkeys : f.keyRepr = some .text → ∀ kind key value,
      g.mapBelow? f.shape = some (kind, key, value) → g.SpokenKey key)
    (hbelow : g.Below P f.shape) (hd : DefinesField g s owner variant f d)
    (hof : OfShape g tag f.shape v) (hints : f.intRepr = some .int64 → v.FitsInt64) :
    Writes ((Converter.mk g ⟨s.names, tag⟩).writeField f ctx) v := by
  intro path
  obtain ⟨t, cs, ht, -⟩ := hd.type
  rw [writeField, hcodec]
  cases ht with
  | ints hr hi =>
    rw [hr]
    exact (returns_ints ⟨s.names, tag⟩ v hi hof fun h => hints (h ▸ hr)).writes path
  | keyed hi hr hkey =>
    rw [hi, hr]
    exact hk ctx hbelow (fun h => hkeys (h ▸ hr)) hkey hof path
  | plain hi hr ht =>
    rw [hi, hr]
    exact hv hbelow ht hof path

/-- The fields of a struct or variant are written from an object that has them all. -/
theorem writes_fields (hready : Ready P g tag s) (ih : WrittenBelow P g tag s v)
    {oid : ShapeId} {n own : String} (owner : String) {x : Option Variant}
    (variant : Option Variant) {fields : List Field} {ms : List (String × Native)}
    {ds : List FieldDef} (hms : v.members? = some ms) (hbelow : g.Below P oid)
    (hn : Entries.find? s.names oid = some n) (hgroup : fields ∈ (g.shape oid).fieldGroups)
    (hd : DefinesFields g s own x fields ds)
    (hkeys : ∀ f ∈ fields, f.name ∈ Entries.keys ms)
    (hfields : ∀ f ∈ fields, ∀ y, Entries.find? ms f.name = some y → OfShape g tag f.shape y)
    (hints : ∀ f ∈ fields, ∀ y, Entries.find? ms f.name = some y → f.intRepr = some .int64 →
      y.FitsInt64) (path : Path) :
    ∃ fs, (Converter.mk g ⟨s.names, tag⟩).WritesFields owner variant fields ms path fs := by
  refine exists_related fun f hf => ?_
  obtain ⟨d, -, hdef⟩ := exists_of_forall₂ (List.Forall₂.flip hd) hf
  have hmem : f ∈ fields := (List.mem_filter.1 hf).1
  obtain ⟨y, hy⟩ := Entries.exists_find? (hkeys f hmem)
  obtain ⟨hv, hk⟩ := ih _ (Native.weight_answer hms f.name)
  rw [answer_of_find? hy] at hv hk ⊢
  obtain ⟨w, hw⟩ := writes_field hv hk (ownerContext owner variant f)
    (hready.codecFree hbelow.self fields hgroup f hmem)
    (hready.keys hbelow.self hn fields hgroup f hmem) (hbelow.child
      (Shape.mem_children_of_field hgroup hmem)) hdef (hfields f hmem y hy) (hints f hmem y hy)
    (path.field f.name)
  exact ⟨(f.name, w), rfl, hw⟩

/-! ## Structs and enums -/

theorem writes_struct (hready : Ready P g tag s) (ih : WrittenBelow P g tag s v)
    {id sid : ShapeId} {d : Declared} {fields : List Field} {n own : String} {ds : List FieldDef}
    (hl : g.land v.isNothing id = .shape sid (.struct d fields)) (hbelow : g.Below P sid)
    (hn : Entries.find? s.names sid = some n) (hd : DefinesFields g s own none fields ds)
    (hv : OfShape g tag sid v) : Writes ((Converter.mk g ⟨s.names, tag⟩).write id) v := by
  have hs := (Graph.landsAt_of_land hl).shape
  have hgroup : fields ∈ (g.shape sid).fieldGroups := by
    rw [hs]
    exact List.mem_cons_self
  obtain ⟨ms, rfl, hkeys, hfields, hints⟩ := hv.cases_struct hs
  intro path
  obtain ⟨fs, hfs⟩ := writes_fields hready ih _ none rfl hbelow hn hgroup hd
    (fun f hf => hkeys.mem_iff.2 (List.mem_map_of_mem hf)) hfields hints path
  exact ⟨_, (write_struct_ok hl).2 ⟨ms, fs, rfl, hfs, rfl⟩⟩

theorem exists_namedVariant? {vs : List Variant} {x : Variant} (hx : x ∈ vs) :
    ∃ z, namedVariant? vs (.text x.name) = some z :=
  Option.isSome_iff_exists.1 (List.find?_isSome.2 ⟨x, hx, beq_self_eq_true _⟩)

theorem namedVariant?_name {vs : List Variant} {d : Declared} {own : Option String} {u : Bool}
    {x : Variant} (hvs : (Shape.enum d own u vs).VariantsNamed) (hdata : isDataEnum vs = true)
    (hx : x ∈ vs) : namedVariant? vs (.text x.name) = some x := by
  obtain ⟨z, hz⟩ := exists_namedVariant? hx
  have hfound := List.find?_some (show vs.find? (fun y => y.name == x.name) = some z from hz)
  rw [hz, hvs hdata z (mem_of_namedVariant? hz) x hx (eq_of_beq hfound)]

theorem writes_data (hready : Ready P g tag s) (ih : WrittenBelow P g tag s v)
    {id sid : ShapeId} {d : Declared} {own : Option String} {u : Bool} {vs : List Variant}
    {n : String} (hl : g.land v.isNothing id = .shape sid (.enum d own u vs))
    (hdata : isDataEnum vs = true) (hn : Entries.find? s.names sid = some n)
    (hbelow : g.Below P sid)
    (hvariants : ∀ x ∈ vs, HasVariant g (own.getD tag) s n x) (hv : OfShape g tag sid v) :
    Writes ((Converter.mk g ⟨s.names, tag⟩).write id) v := by
  have hs := (Graph.landsAt_of_land hl).shape
  obtain ⟨x, hx, ms, rfl, hkeys, htag, hfields, hints⟩ := hv.cases_data hs hdata
  obtain ⟨-, -, ds, hd⟩ := hvariants x hx
  have hgroup : x.fields ∈ (g.shape sid).fieldGroups := by
    rw [hs]
    exact List.mem_map_of_mem hx
  have hnamed : namedVariant? vs (Native.answer ms (own.getD tag)) = some x := by
    have hvs := hready.variants hbelow.self hn
    rw [hs] at hvs
    rw [answer_of_find? htag, namedVariant?_name hvs hdata hx]
  intro path
  obtain ⟨fs, hfs⟩ := writes_fields hready ih _ (some x) rfl hbelow hn hgroup hd
    (fun f hf => hkeys.mem_iff.2 (List.mem_cons_of_mem _ (List.mem_map_of_mem hf)))
    hfields hints path
  exact ⟨_, (write_data_ok hl hdata).2 ⟨ms, x, fs, rfl, hnamed, hfs, rfl⟩⟩

theorem writes_texts {c : Converter} {id sid : ShapeId} {d : Declared} {own : Option String}
    {u : Bool} {vs : List Variant}
    (hl : c.graph.land v.isNothing id = .shape sid (.enum d own u vs))
    (hdata : isDataEnum vs = false) (hv : OfShape c.graph tag sid v) : Writes (c.write id) v := by
  obtain ⟨x, hx, rfl⟩ := hv.cases_texts (Graph.landsAt_of_land hl).shape hdata
  obtain ⟨z, hz⟩ := exists_namedVariant? hx
  exact fun path => ⟨_, (write_texts_ok hl hdata).2 ⟨z, hz, rfl⟩⟩

/-! ## Steps of the induction -/

theorem writes_declared (hready : Ready P g tag s) (ih : WrittenBelow P g tag s v)
    {id sid : ShapeId} {x : Shape} {t : Ty Authored} (hl : g.land v.isNothing id = .shape sid x)
    (hshape : g.shape sid = x) (hbelow : g.Below P sid)
    (ht : Entries.find? s.visited sid = some t) (hv : OfShape g tag sid v) :
    Writes ((Converter.mk g ⟨s.names, tag⟩).write id) v := by
  cases hready.sound.complete ht with
  | struct hs hn _ hfields =>
    obtain rfl := hshape.symm.trans hs
    exact writes_struct hready ih hl hbelow hn hfields hv
  | variants hs hdata hn hvariants =>
    obtain rfl := hshape.symm.trans hs
    exact writes_data hready ih hl hdata hn hbelow hvariants hv
  | texts hs hdata | enumRef hs hdata =>
    obtain rfl := hshape.symm.trans hs
    exact writes_texts hl hdata hv

theorem written_step (hready : Ready P g tag s) (ih : WrittenBelow P g tag s v) :
    Written P g tag s v := by
  intro id t hroot ht hv
  refine writes_of_land (passes_hasType s) hv ht (fun path hl => by rw [write, hl]) ?_
  intro sid x u hl hlands hu hv
  have hbelow := hroot.land hlands
  have hshape := hlands.shape
  cases hu with
  | option hs => exact absurd hs hlands.ne_option
  | pointer hs => exact absurd hs hlands.ne_pointer
  | scalar hs hscalar =>
    obtain rfl := hshape.symm.trans hs
    intro path
    obtain ⟨w, hw, -⟩ := readScalar_writeScalar hscalar (hv.cases_scalar hs) path
    exact ⟨w, by rw [write_scalar hl, hw]⟩
  | list hs hinner =>
    obtain rfl := hshape.symm.trans hs
    refine writes_list hv hs (fun items hi y hy hyv => ?_)
      (fun path items ws hi hws => (write_list_ok hl).2 ⟨items, ws, hi, hws, rfl⟩)
    exact (ih y (Native.weight_item hi hy)).1 (hbelow.item hs) hinner hyv
  | map hs hkey hvalue =>
    obtain rfl := hshape.symm.trans hs
    refine writes_entries (fun k t => k = .text t) hv hs
      (fun k hk ho => exists_text_of_keyAllowed hkey hk ho)
      (fun es hes p hp hpv => ?_)
      (fun path es ws hes hws => (write_map_ok hl).2 ⟨es, ws, hes, hws, rfl⟩)
    exact (ih p.2 (Native.weight_entry hes hp).2).1 (hbelow.value hs) hvalue hpv
  | declared _ hfound => exact writes_declared hready ih hl hshape hbelow hfound hv

theorem writtenKeyed_step (ih : WrittenBelow P g tag s v) (hself : Written P g tag s v) :
    WrittenKeyed P g tag s v := by
  intro ctx repr f own id t hroot hkeys ht hv
  refine writes_of_land (passes_keyType s repr f own) hv ht (fun path hl => by rw [writeKeyed, hl])
    ?_
  intro sid x u hl hlands hu hv
  have hbelow := hroot.land hlands
  have hshape := hlands.shape
  cases hu with
  | option hs => exact absurd hs hlands.ne_option
  | pointer hs => exact absurd hs hlands.ne_pointer
  | list hs hinner =>
    obtain rfl := hshape.symm.trans hs
    refine writes_list hv hs (fun items hi y hy hyv => ?_)
      (fun path items ws hi hws => (writeKeyed_list_ok hl).2 ⟨items, ws, hi, hws, rfl⟩)
    exact (ih y (Native.weight_item hi hy)).2 ctx (hbelow.item hs) hkeys hinner hyv
  | text hs hmap hrepr hvalue =>
    subst hrepr
    obtain rfl := hshape.symm.trans hs
    refine writes_entries (fun k t => ∀ path, keyText k path = .ok t) hv hs
      (fun k hk _ => exists_keyText (hkeys rfl _ _ _ hmap) hk) (fun es hes p hp hpv => ?_)
      (fun path es ws hes hws => (writeKeyed_text_ok hl).2
        ⟨es, ws, hes, hws.imp fun _ _ hy => ⟨hy.1 path, hy.2⟩, rfl⟩)
    exact (ih p.2 (Native.weight_entry hes hp).2).1 (hbelow.value hs) hvalue hpv
  | pairs hs _ hrepr hkey hvalue =>
    subst hrepr
    obtain rfl := hshape.symm.trans hs
    refine writes_pairs hv hs (fun es hes p hp hpv => ?_) (fun es hes p hp hpv => ?_)
      (fun path es ws hes hws => (writeKeyed_pairs_ok hl).2 ⟨es, ws, hes, hws, rfl⟩)
    · exact (ih p.1 (Native.weight_entry hes hp).1).1 (hbelow.key hs) hkey hpv
    · exact (ih p.2 (Native.weight_entry hes hp).2).1 (hbelow.value hs) hvalue hpv
  | other hs hplain =>
    have hs' : x.isDeclared = true ∨ ∃ y, x = .scalar y := by
      rw [← hshape]
      exact hs
    intro path
    rw [writeKeyed_other hl hs']
    exact hself hbelow hplain hv path

theorem written (hready : Ready P g tag s) (v : Native) :
    Written P g tag s v ∧ WrittenKeyed P g tag s v := by
  induction hn : v.weight using Nat.strongRecOn generalizing v with
  | ind n ih =>
  have smaller : WrittenBelow P g tag s v := fun x hx => ih x.weight (hn ▸ hx) x rfl
  have hv : Written P g tag s v := written_step hready smaller
  exact ⟨hv, writtenKeyed_step smaller hv⟩

/-- Variants with classes of their own are told by their names. -/
theorem variantsNamed_of_distinctClasses (hclasses : DistinctClasses g s.names) {id : ShapeId}
    {n : String} (hn : Entries.find? s.names id = some n) : (g.shape id).VariantsNamed := by
  cases hshape : g.shape id with
  | enum d own u vs =>
    intro hdata x hx y hy hname
    refine variant_unique hclasses hshape hdata hn hx hy ?_
    unfold variantClassName
    rw [hname]
  | _ => trivial

/-- A value of a shape whose schema was built is written if its keys have texts where they need
them. -/
theorem write_of_spoken {root : ShapeId} {b : Bundle} (hb : buildSchema g root tag = (.ok b, s))
    (hfree : g.Below Shape.CodecFree root) (hkeys : g.Below (Shape.KeysSpoken g) root)
    (hclasses : DistinctClasses g b.names) (hv : OfShape g tag root v) (path : Path) :
    ∃ w, (Converter.mk g b.nameTable).write root v path = .ok w := by
  obtain ⟨target, rfl, hsound, htarget⟩ := built_of_buildSchema hfree hb
  have hready : Ready (fun x => x.CodecFree ∧ x.KeysSpoken g) g tag s :=
    ⟨hsound, fun h => h.1, fun h _ => h.2,
      fun _ hn => variantsNamed_of_distinctClasses hclasses hn⟩
  exact (written hready v).1 (fun i hi => ⟨hfree i hi, hkeys i hi⟩) htarget hv path

/-- A value of a shape whose schema was built is written. -/
theorem write_of_shape {root : ShapeId} {b : Bundle} (hb : buildSchema g root tag = (.ok b, s))
    (hwritable : g.Below (Shape.Writable g) root) (hclasses : DistinctClasses g b.names)
    (hv : OfShape g tag root v) (path : Path) :
    ∃ w, (Converter.mk g b.nameTable).write root v path = .ok w :=
  write_of_spoken hb (fun i hi => (hwritable i hi).codecFree)
    (fun i hi => (hwritable i hi).keys.spoken) hclasses hv path

end

end Converter

end ShapeSchema
