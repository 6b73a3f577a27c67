import Mathlib.Data.List.Find
import ShapeSchema.Proofs.Convert.Fits
import ShapeSchema.Proofs.Convert.Writing
import ShapeSchema.Proofs.Shape.Found
import ShapeSchema.Proofs.Shape.Landing

/-!
# What is written is accepted

The schema of a shape accepts everything that the writer emits for it, unchanged and with nothing
dropped. Building and writing walk the same shapes: the type of a shape is known from `HasType`, the
form of what is written from the lemmas on the writer, and coercion gives the one back at the other.
The induction is on the weight of the native value, and is carried out for every spelling in which
the fields and variants of the shapes can be told (`Spelling.Legible`).
-/

namespace ShapeSchema

/-! ## Shapes with distinct names -/

/-- No two variants of an enum are shown under the same name. -/
def Shape.DistinctVariants : Shape → Prop
  | .enum _ _ _ variants => (variants.map (·.rendered)).Nodup
  | _ => True

/-- A shape without codecs whose fields and variants have names of their own. -/
structure Shape.Plain (s : Shape) : Prop where
  codecFree : s.CodecFree
  fields : s.DistinctFields
  variants : s.DistinctVariants

instance : DecidablePred Shape.DistinctVariants
  | .enum _ _ _ variants => inferInstanceAs (Decidable (variants.map (·.rendered)).Nodup)
  | .scalar _ | .option _ | .list _ _ | .map _ _ _ | .pointer _ _ | .struct _ _ | .foreign _ _ =>
    .isTrue trivial

instance : DecidablePred Shape.Plain := fun s =>
  decidable_of_iff (s.CodecFree ∧ s.DistinctFields ∧ s.DistinctVariants)
    ⟨fun h => ⟨h.1, h.2.1, h.2.2⟩, fun h => ⟨h.codecFree, h.fields, h.variants⟩⟩

/-- The variant that an enum knows under a name: real names come before rendered ones. -/
def Variant.known? (vs : List Variant) (name : String) : Option Variant :=
  (vs.find? fun v => v.name == name).or (vs.find? fun v => v.rendered == name)

namespace Converter

open Builder

/-- The names of the fields that are not skipped. -/
def fieldNames (fields : List Field) : List Name :=
  (fields.filter fun f => !f.skip).map fun f => .of f.name f.rendered

theorem map_real_fieldNames (fields : List Field) :
    (fieldNames fields).map Name.real = (fields.filter fun f => !f.skip).map (·.name) := by
  unfold fieldNames
  rw [List.map_map]
  rfl

/-- In spelled values of shapes with a property, every field of a class and every variant of an enum
can be told from the others. -/
structure Legible (sp : Spelling) (P : Shape → Prop) (g : Graph) (tag : String)
    (names : List (ShapeId × String)) : Prop where
  plain : ∀ {x : Shape}, P x → x.Plain
  struct : ∀ {id : ShapeId} {n : String} {d : Declared} {fields : List Field},
    P (g.shape id) → g.shape id = .struct d fields → .struct id n ∈ classSources g names →
    Spelling.Tells (sp.field n) (fieldNames fields)
  variant : ∀ {id : ShapeId} {n : String} {d : Declared} {own : Option String} {u : Bool}
    {vs : List Variant} {x : Variant},
    P (g.shape id) → g.shape id = .enum d own u vs → .variant id n x ∈ classSources g names →
    x ∈ vs → TagFree (own.getD tag) x.fields →
    Spelling.Tells (sp.field (variantClassName n x)) (⟨own.getD tag, none⟩ :: fieldNames x.fields)
  entry : ∀ {id : ShapeId} {owner : String} {v : Option Variant} {f : Field},
    .entry id owner v f ∈ classSources g names →
    Spelling.Tells (sp.field (entryClassName (ownerContext owner v f)).1)
      [⟨"key", none⟩, ⟨"value", none⟩]
  enumOf : ∀ {id : ShapeId} {n : String} {d : Declared} {own : Option String}
    {vs : List Variant} {x : Variant} (cs : List Constraint),
    P (g.shape id) → g.shape id = .enum d own false vs → isDataEnum vs = false →
    Entries.find? names id = some n → vs.find? (fun y => y.name == x.name) = some x → ∃ y,
      (enumDef n d vs cs).findValue? ((sp.text? n x.name).getD x.name) = some y ∧
      y.name.real = x.name
  texts : ∀ {n variant : String}, (sp.text? n variant).isSome = true → .stringToEnum ∈ sp.free

/-- A schema that was built, the converter that goes with it and the coercion of its values in a
spelling. -/
structure Setting (g : Graph) (tag : String) (s : BuildState) (c : Coercer) (sp : Spelling)
    (P : Shape → Prop) : Prop where
  quiet : c.sink = .quiet
  schema : ∃ target, c.schema = s.registry.freeze target
  sound : Sound g tag (fun _ => False) s
  classes : DistinctClasses g s.names
  legible : Legible sp P g tag s.names

section
variable {g : Graph} {tag : String} {s : BuildState} {c : Coercer} {sp : Spelling}
  {P : Shape → Prop} (hset : Setting g tag s c sp P)

/-- What is written for a value is accepted at every type of its shape. -/
def Accepted (g : Graph) (tag : String) (s : BuildState) (c : Coercer) (sp : Spelling)
    (P : Shape → Prop) (v : Native) : Prop :=
  ∀ {id : ShapeId} {t : Ty Authored} {path : Path} {w : Value}, g.Below P id →
    HasType g s id t → (Converter.mk g ⟨s.names, tag⟩).write id v path = .ok w → c.Fits sp w t

/-- The same below a field that writes maps in another way. -/
def AcceptedKeyed (g : Graph) (tag : String) (s : BuildState) (c : Coercer) (sp : Spelling)
    (P : Shape → Prop) (v : Native) : Prop :=
  ∀ (oid : ShapeId) {repr : KeyRepr} {f : Field} {owner : String} {variant : Option Variant}
    {id : ShapeId} {t : Ty Authored} {path : Path} {w : Value}, g.Below P id →
    (repr = .pairs → (g.mapBelow? f.shape).isSome = true →
      ClassSource.entry oid owner variant f ∈ classSources g s.names) →
    KeyType g s repr f (ownerContext owner variant f) id t →
    (Converter.mk g ⟨s.names, tag⟩).writeKeyed repr (ownerContext owner variant f) id v path
      = .ok w → c.Fits sp w t

/-- Everything smaller than a value is accepted in both ways. -/
def AcceptedBelow (g : Graph) (tag : String) (s : BuildState) (c : Coercer) (sp : Spelling)
    (P : Shape → Prop) (v : Native) : Prop :=
  ∀ x : Native, x.weight < v.weight → Accepted g tag s c sp P x ∧ AcceptedKeyed g tag s c sp P x

/-! ## Scalars and whole numbers -/

theorem fits_scalar {x : Scalar} {v : Native} {path : Path} {w : Value} {t : Ty Authored}
    (hw : writeScalar x v path = .ok w) (ht : scalarType? x = some t) : c.Fits sp w t := by
  have integer (hx : x.isInteger = true) (hw : ∃ n, writeInt x n path = .ok w)
      (ht : t = .prim .int {}) : c.Fits sp w t := by
    obtain ⟨n, hn⟩ := hw
    unfold writeInt at hn
    split at hn
    · cases hn
      rw [ht]
      exact Coercer.fits_prim (by simp) rfl fun _ _ => Checked.gives_pure _
    · cases hn
  unfold writeScalar at hw
  split at hw
  · cases hw
    cases ht
    exact Coercer.fits_prim (by simp) rfl fun _ _ => Checked.gives_pure _
  · cases hw
    cases ht
    exact Coercer.fits_prim (by simp) rfl fun _ _ => Checked.gives_pure _
  · cases hw
    cases ht
    exact Coercer.fits_prim (by simp) rfl fun _ _ => Checked.gives_pure _
  · cases hw
    cases ht
    exact Coercer.fits_prim (by simp) rfl fun _ _ => Checked.gives_pure _
  · cases hw
    cases ht
    exact Coercer.fits_prim (by simp) rfl fun _ _ => Checked.gives_pure _
  · cases hw
    cases ht
    exact Coercer.fits_prim (by simp) rfl fun _ _ => Checked.gives_pure _
  · split at hw
    · next hint =>
      split at hw
      · next n hn =>
        refine integer hint ⟨n, hw⟩ ?_
        cases x <;> first | exact absurd hint (by decide) | (cases ht; try rfl)
      · cases hw
    · cases hw

theorem fits_intAs {repr : IntRepr} {ident : String} {v : Native} {path : Path} {w : Value}
    (hw : writeIntAs repr ident v path = .ok w) : c.Fits sp w (.prim (reprPrim repr) {}) := by
  unfold writeIntAs at hw
  split at hw
  · cases hw
  · cases hw
    exact Coercer.fits_prim (by simp) rfl fun _ _ => Checked.gives_pure _
  · split at hw
    · cases hw
      exact Coercer.fits_prim (by simp) rfl fun _ _ => Checked.gives_pure _
    · cases hw

theorem mem_of_writesItems {f : Native → Path → Except Fault Value} {path : Path}
    {items : List Native} {ws : List Value} (h : WritesItems f path items ws) {w : Value}
    (hw : w ∈ ws) : ∃ x ∈ items, ∃ here, f x here = .ok w := by
  obtain ⟨p, hp, h⟩ := exists_of_forall₂ h hw
  exact ⟨p.1, List.fst_mem_of_mem_zipIdx hp, _, h⟩

/-! ## Options and pointers -/

include hset in
/-- What is written is accepted if it is at the types of the shapes that options and pointers lead
to. -/
theorem fits_of_land (v : Native) {T : ShapeId → Ty Authored → Prop} (hT : Passes g T)
    {id : ShapeId} {t : Ty Authored} {w : Value} (ht : T id t)
    (hnull : g.land v.isNothing id = .null → w = .null) (hend : g.land v.isNothing id ≠ .endless)
    (hshape : ∀ {sid : ShapeId} {x : Shape} {u : Ty Authored},
      g.land v.isNothing id = .shape sid x → g.LandsAt id sid x → T sid u → c.Fits sp w u) :
    c.Fits sp w t := by
  cases hl : g.land v.isNothing id with
  | null =>
    obtain rfl := hnull hl
    obtain ⟨u, rfl⟩ := hT.land_null hl ht
    exact Coercer.fits_null_optional u
  | endless => exact absurd hl hend
  | shape sid x =>
    obtain ⟨u, hu, lift⟩ := hT.land hl ht
    exact lift (c.Fits sp w) (fun _ h => h.optional hset.quiet)
      (hshape hl (Graph.landsAt_of_land hl) hu)

include hset in
/-- Whole numbers written in another way are accepted. -/
theorem fits_writeInts {repr : IntRepr} (v : Native) : ∀ {id : ShapeId} {t : Ty Authored}
    {path : Path} {w : Value}, IntType g repr id t →
    (Converter.mk g ⟨s.names, tag⟩).writeInts repr id v path = .ok w → c.Fits sp w t := by
  induction hn : v.weight using Nat.strongRecOn generalizing v with
  | ind n ih =>
  intro id t path w ht hw
  refine fits_of_land hset v (passes_intType repr) ht (fun hl => ?_) (fun hl => ?_) ?_
  · rw [writeInts, hl] at hw
    cases hw
    rfl
  · rw [writeInts, hl] at hw
    cases hw
  intro sid x u hl hlands hu
  have hshape := hlands.shape
  cases hu with
  | option hs => exact absurd hs hlands.ne_option
  | pointer hs => exact absurd hs hlands.ne_pointer
  | list hs hinner =>
    obtain rfl := hshape.symm.trans hs
    obtain ⟨items, ws, hitems, hws, rfl⟩ := (writeInts_list_ok hl).1 hw
    refine Coercer.fits_list hset.quiet fun y hy => ?_
    obtain ⟨z, hz, _, hwrite⟩ := mem_of_writesItems hws hy
    exact ih _ (hn ▸ Native.weight_item hitems hz) z rfl hinner hwrite
  | scalar hs hint =>
    obtain rfl := hshape.symm.trans hs
    rw [writeInts_scalar hl] at hw
    exact fits_intAs hw

/-! ## Fields -/

/-- The fields of a struct or variant, of which all have entry classes where they need them. -/
structure Owned (g : Graph) (s : BuildState) (oid : ShapeId) (owner : String)
    (variant : Option Variant) (fields : List Field) : Prop where
  group : fields ∈ (g.shape oid).fieldGroups
  entries : ∀ f ∈ fields, g.writesPairs f = true →
    ClassSource.entry oid owner variant f ∈ classSources g s.names

include hset in
theorem fits_field {v : Native} (hv : Accepted g tag s c sp P v)
    (hk : AcceptedKeyed g tag s c sp P v)
    {oid : ShapeId} {owner : String} {variant : Option Variant} {f : Field} {d : FieldDef}
    {path : Path} {w : Value} (hcodec : f.codec = none) (hskip : f.skip = false)
    (hbelow : g.Below P f.shape)
    (hentry : g.writesPairs f = true →
      ClassSource.entry oid owner variant f ∈ classSources g s.names)
    (hd : DefinesField g s owner variant f d)
    (hw : (Converter.mk g ⟨s.names, tag⟩).writeField f (ownerContext owner variant f) v path
      = .ok w) : c.Fits sp w d.type := by
  obtain ⟨t, cs, ht, hdef⟩ := hd.type
  have fits : c.Fits sp w t := by
    rw [writeField, hcodec] at hw
    cases ht with
    | ints hint hi =>
      rw [hint] at hw
      exact fits_writeInts hset v hi hw
    | keyed hint hkey hi =>
      rw [hint, hkey] at hw
      refine hk oid hbelow ?_ hi hw
      rintro rfl hmap
      refine hentry ?_
      unfold Graph.writesPairs
      rw [hskip, hint, hkey, hmap]
      rfl
    | plain hint hkey hi =>
      rw [hint, hkey] at hw
      exact hv hbelow hi hw
  rcases hdef with hdef | hdef
  · rw [hdef]
    exact fits.withConstraints cs
  · rw [hdef]
    exact (fits.withConstraints cs).optional hset.quiet

theorem names_of_definesFields {owner : String} {variant : Option Variant} {fields : List Field}
    {ds : List FieldDef} (h : DefinesFields g s owner variant fields ds) :
    ds.map (·.name) = fieldNames fields := map_eq_of_forall₂ (h.imp fun _ _ hd => hd.name)

include hset in
theorem fits_fields {v : Native}
    (ih : AcceptedBelow g tag s c sp P v)
    {oid : ShapeId} {owner : String} {variant : Option Variant} {fields : List Field}
    {ms : List (String × Native)} {path : Path} {fs : List (String × Value)} {ds : List FieldDef}
    (hms : v.members? = some ms) (hbelow : g.Below P oid)
    (howned : Owned g s oid owner variant fields) (hd : DefinesFields g s owner variant fields ds)
    (hw : (Converter.mk g ⟨s.names, tag⟩).WritesFields owner variant fields ms path fs) :
    List.Forall₂ (fun d p => p.1 = d.name.real ∧ c.Fits sp p.2 d.type) ds fs := by
  refine (forall₂_join hd hw).imp ?_
  rintro d p ⟨f, hf, hdef, hname, hwrite⟩
  obtain ⟨hmem, hskip⟩ := List.mem_filter.1 hf
  obtain ⟨hv, hk⟩ := ih _ (Native.weight_answer hms f.name)
  refine ⟨by rw [hname, hdef.name]; rfl, fits_field hset hv hk ?_ (by simpa using hskip)
    (hbelow.child (Shape.mem_children_of_field howned.group hmem)) (howned.entries f hmem) hdef
    hwrite⟩
  exact (hset.legible.plain hbelow.self).codecFree fields howned.group f hmem

/-! ## Structs and enums -/

theorem owned_struct {id : ShapeId} {n : String} {d : Declared} {fields : List Field}
    (hshape : g.shape id = .struct d fields) (hn : Entries.find? s.names id = some n) :
    ClassSource.struct id n ∈ classSources g s.names ∧ Owned g s id n none fields := by
  have hmem : (id, n) ∈ s.names := Entries.mem_of_find?_eq_some hn
  have hsources : sourcesOf g (id, n) = .struct id n :: entrySources g id n none fields := by
    unfold sourcesOf
    rw [hshape]
  refine ⟨List.mem_flatMap.2 ⟨_, hmem, ?_⟩, ?_, fun f hf hw => List.mem_flatMap.2 ⟨_, hmem, ?_⟩⟩
  · rw [hsources]
    exact List.mem_cons_self
  · rw [hshape]
    exact List.mem_cons_self
  · rw [hsources]
    exact List.mem_cons_of_mem _ (List.mem_map_of_mem (List.mem_filter.2 ⟨hf, hw⟩))

theorem owned_variant {id : ShapeId} {n : String} {d : Declared} {own : Option String} {u : Bool}
    {vs : List Variant} {x : Variant} (hshape : g.shape id = .enum d own u vs)
    (hdata : isDataEnum vs = true) (hx : x ∈ vs) (hn : Entries.find? s.names id = some n) :
    ClassSource.variant id n x ∈ classSources g s.names ∧ Owned g s id n (some x) x.fields := by
  have hmem : (id, n) ∈ s.names := Entries.mem_of_find?_eq_some hn
  have hsources : ∀ src ∈ ClassSource.variant id n x :: entrySources g id n (some x) x.fields,
      src ∈ sourcesOf g (id, n) := by
    intro src hsrc
    unfold sourcesOf
    simp only [hshape, hdata, if_true]
    exact List.mem_flatMap.2 ⟨x, hx, hsrc⟩
  refine ⟨List.mem_flatMap.2 ⟨_, hmem, hsources _ List.mem_cons_self⟩, ?_,
    fun f hf hw => List.mem_flatMap.2 ⟨_, hmem, hsources _ (List.mem_cons_of_mem _ ?_)⟩⟩
  · rw [hshape]
    exact List.mem_map_of_mem hx
  · exact List.mem_map_of_mem (List.mem_filter.2 ⟨hf, hw⟩)

/-- The class of a variant starts with the tag and has no constraints. -/
theorem found_variant (target : Ty Authored) (hs : Sound g tag (fun _ => False) s)
    (hd : DistinctClasses g s.names) {id : ShapeId} {n : String} {d : Declared}
    {own : Option String} {u : Bool} {vs : List Variant} {x : Variant}
    (hshape : g.shape id = .enum d own u vs) (hdata : isDataEnum vs = true)
    (hn : Entries.find? s.names id = some n) (hc : HasClass s (variantClassName n x))
    (hx : x ∈ vs) :
    ∃ cd ds, (s.registry.freeze target).findClass? (variantClassName n x) .complete = some cd ∧
      cd.constraints = [] ∧ cd.fields = tagDef (own.getD tag) x :: ds ∧
      TagFree (own.getD tag) x.fields ∧ DefinesFields g s n (some x) x.fields ds := by
  obtain ⟨hsrc, -⟩ := owned_variant hshape hdata hx hn
  obtain ⟨cd, hfound, hdef⟩ := found_definition target hs hd hsrc hc
  have hfields := hdef.fields
  refine ⟨cd, ?_⟩
  generalize cd.fields = ds at hfields
  cases hfields with
  | variant hs hfree hfields =>
    obtain ⟨rfl, rfl, rfl, rfl⟩ := Shape.enum.inj (hshape.symm.trans hs)
    exact ⟨_, hfound, hdef.constraints, rfl, hfree, hfields⟩

include hset in
theorem fits_struct {v : Native}
    (ih : AcceptedBelow g tag s c sp P v)
    {id : ShapeId} {d : Declared} {fields : List Field} {n : String}
    {ms : List (String × Native)} {path : Path} {fs : List (String × Value)}
    (hshape : g.shape id = .struct d fields) (hbelow : g.Below P id)
    (hn : Entries.find? s.names id = some n) (hclass : HasClass s n) (hms : v.members? = some ms)
    (hw : (Converter.mk g ⟨s.names, tag⟩).WritesFields n none fields ms path fs) :
    c.Fits sp (.ofFields n fs) (.classRef n .complete false {}) := by
  obtain ⟨target, hschema⟩ := hset.schema
  obtain ⟨hsrc, howned⟩ := owned_struct hshape hn
  obtain ⟨cd, hfound, hdef⟩ := found_class target hset.sound hset.classes hsrc hclass
  have nd := nodup_of_writesFields hw ((hset.legible.plain hbelow.self).fields fields howned.group)
  have htells := hset.legible.struct hbelow.self hshape hsrc
  rw [Value.ofFields, Entries.ofList_of_nodup nd]
  generalize hfs : cd.fields = ds at hdef
  cases hdef with
  | struct hs hfields =>
    obtain ⟨rfl, rfl⟩ := Shape.struct.inj (hshape.symm.trans hs)
    refine Coercer.fits_class hset.quiet (by rw [hschema]; exact hfound) ?_ ?_
    · rwa [hfs, names_of_definesFields hfields]
    · rw [hfs]
      exact fits_fields hset ih hms hbelow howned hfields hw

/-- Two variants with classes of the same name are the same. -/
theorem variant_unique (hd : DistinctClasses g s.names) {id : ShapeId} {n : String} {d : Declared}
    {own : Option String} {u : Bool} {vs : List Variant} (hshape : g.shape id = .enum d own u vs)
    (hdata : isDataEnum vs = true) (hn : Entries.find? s.names id = some n) {x y : Variant}
    (hx : x ∈ vs) (hy : y ∈ vs) (h : variantClassName n x = variantClassName n y) : x = y := by
  obtain ⟨hsx, -⟩ := owned_variant hshape hdata hx hn
  obtain ⟨hsy, -⟩ := owned_variant hshape hdata hy hn
  exact (ClassSource.variant.inj (source_unique hd hsx hsy h)).2.2

/-- The name of a variant of a data enum tells the variant. -/
theorem variant_of_namedVariant? (hd : DistinctClasses g s.names) {id : ShapeId} {n : String}
    {d : Declared} {own : Option String} {u : Bool} {vs : List Variant}
    (hshape : g.shape id = .enum d own u vs) (hdata : isDataEnum vs = true)
    (hn : Entries.find? s.names id = some n) {x z : Variant} (hx : x ∈ vs)
    (hz : namedVariant? vs (.text x.name) = some z) : z = x := by
  refine variant_unique hd hshape hdata hn (mem_of_namedVariant? hz) hx ?_
  have hfound := List.find?_some (show vs.find? (fun y => y.name == x.name) = some z from hz)
  unfold variantClassName
  rw [eq_of_beq hfound]

/-- A variant stands behind variants that are shown under other names. -/
theorem split_variants {vs : List Variant} (nd : (vs.map (·.rendered)).Nodup) {x : Variant}
    (hx : x ∈ vs) : ∃ before after, vs = before ++ x :: after ∧
      ∀ y ∈ before, y.rendered ≠ x.rendered := by
  obtain ⟨before, after, rfl⟩ := List.append_of_mem hx
  refine ⟨before, after, rfl, fun y hy he => ?_⟩
  rw [List.map_append, List.nodup_append] at nd
  exact nd.2.2 _ (List.mem_map_of_mem hy) _ (List.mem_map_of_mem List.mem_cons_self) he

theorem unionOf_map {α : Type} {f : α → Ty Authored} (hf : ∀ x, (f x).nullAnn? = none) (xs : List α)
    (a : Authored) : Ty.unionOf (xs.map f) a = .union (xs.map f) none a := by
  unfold Ty.unionOf
  congr 1
  · refine List.filter_eq_self.2 fun t ht => ?_
    obtain ⟨x, -, rfl⟩ := List.mem_map.1 ht
    unfold Ty.isNull
    rw [hf x]
    rfl
  · refine List.findSome?_eq_none_iff.2 fun t ht => ?_
    obtain ⟨x, -, rfl⟩ := List.mem_map.1 ht
    exact hf x

include hset in
theorem fits_text {vs : List Variant} (nd : (vs.map (·.rendered)).Nodup) {x : Variant}
    (hx : x ∈ vs) : c.Fits sp (.text x.rendered)
      (Ty.unionOf (vs.map fun v => Ty.literal (.string v.rendered) {}) {}) := by
  rw [unionOf_map fun _ => rfl]
  obtain ⟨before, after, rfl, hother⟩ := split_variants nd hx
  rw [List.map_append, List.map_cons]
  refine Coercer.fits_union hset.quiet (by simp) (fun t ht => ?_)
    (Coercer.fits_literal rfl (by simp [Literal.matches]))
  obtain ⟨y, hy, rfl⟩ := List.mem_map.1 ht
  rw [sp.spell_of_isAtom rfl]
  refine Coercer.refuses_literal ?_
  simpa [Literal.matches] using (hother y hy).symm

theorem find?_of_namedVariant? {vs : List Variant} {v : Native} {x : Variant}
    (h : namedVariant? vs v = some x) : vs.find? (fun y => y.name == x.name) = some x := by
  unfold namedVariant? at h
  split at h
  · have hx := List.find?_some h
    rwa [eq_of_beq hx]
  · cases h

include hset in
theorem fits_variantName {id : ShapeId} {d : Declared} {own : Option String} {vs : List Variant}
    {n : String} (hshape : g.shape id = .enum d own false vs) (hdata : isDataEnum vs = false)
    (hn : Entries.find? s.names id = some n) (he : ∃ e ∈ s.registry.enums, e.name.real = n)
    {x : Variant} (hp : P (g.shape id)) (hx : vs.find? (fun y => y.name == x.name) = some x) :
    c.Fits sp (.enumOf n x.name) (.enumRef n false {}) := by
  obtain ⟨target, hschema⟩ := hset.schema
  obtain ⟨e, hfound, d', own', u', vs', hshape', rfl⟩ := found_enum target hset.sound hn he
  obtain ⟨rfl, rfl, rfl, rfl⟩ := Shape.enum.inj (hshape.symm.trans hshape')
  obtain ⟨y, hy, hreal⟩ := hset.legible.enumOf _ hp hshape hdata hn hx
  exact Coercer.fits_enumRef (by rw [hschema]; exact hfound) hy hreal hset.legible.texts

include hset in
theorem fits_variant {v : Native}
    (ih : AcceptedBelow g tag s c sp P v)
    {id : ShapeId} {d : Declared} {own : Option String} {u : Bool} {vs : List Variant} {n : String}
    {x : Variant} {ms : List (String × Native)} {path : Path} {fs : List (String × Value)}
    (hshape : g.shape id = .enum d own u vs) (hdata : isDataEnum vs = true) (hx : x ∈ vs)
    (hbelow : g.Below P id) (hn : Entries.find? s.names id = some n)
    (hvariants : ∀ v ∈ vs, HasVariant g (own.getD tag) s n v) (hms : v.members? = some ms)
    (hw : (Converter.mk g ⟨s.names, tag⟩).WritesFields n (some x) x.fields ms path fs) :
    c.Fits sp (.ofFields (variantClassName n x) ((own.getD tag, .text x.rendered) :: fs))
      (Ty.unionOf (vs.map fun v => Ty.classRef (variantClassName n v) .complete false {}) {}) := by
  obtain ⟨target, hschema⟩ := hset.schema
  have found (y : Variant) (hy : y ∈ vs) : ∃ cd ds,
      c.schema.findClass? (variantClassName n y) .complete = some cd ∧ cd.constraints = [] ∧
      cd.fields = tagDef (own.getD tag) y :: ds ∧ TagFree (own.getD tag) y.fields ∧
      DefinesFields g s n (some y) y.fields ds := by
    rw [hschema]
    exact found_variant target hset.sound hset.classes hshape hdata hn
      (hvariants y hy).registered hy
  obtain ⟨cd, ds, hfound, -, hfs, hfree, hdefs⟩ := found x hx
  obtain ⟨hsrc, howned⟩ := owned_variant hshape hdata hx hn
  have hplain := hset.legible.plain hbelow.self
  have ndfs := nodup_of_writesFields hw (hplain.fields x.fields howned.group)
  have nd : (Entries.keys ((own.getD tag, Value.text x.rendered) :: fs)).Nodup := by
    refine List.nodup_cons.2 ⟨?_, ndfs⟩
    rw [show fs.map Prod.fst = _ from keys_of_writesFields hw]
    intro hmem
    obtain ⟨f, hf, hname⟩ := List.mem_map.1 hmem
    exact (hfree f (List.mem_filter.1 hf).1).1 hname
  rw [Value.ofFields, Entries.ofList_of_nodup nd, unionOf_map fun _ => rfl]
  have hvs : (vs.map (·.rendered)).Nodup := by
    have := hplain.variants
    rw [hshape] at this
    exact this
  have htells := hset.legible.variant hbelow.self hshape hsrc hx hfree
  obtain ⟨before, after, rfl, hother⟩ := split_variants hvs hx
  rw [List.map_append, List.map_cons]
  refine Coercer.fits_union hset.quiet (by simp) (fun t ht => ?_) ?_
  · obtain ⟨y, hy, rfl⟩ := List.mem_map.1 ht
    obtain ⟨cd', ds', hfound', -, hfs', -⟩ := found y (List.mem_append_left _ hy)
    rw [Spelling.spell_classOf]
    have hkeys : Entries.keys ((own.getD tag, Value.text x.rendered) :: fs) =
        (⟨own.getD tag, none⟩ :: fieldNames x.fields).map Name.real := by
      show own.getD tag :: Entries.keys fs = _
      rw [keys_of_writesFields hw, List.map_cons, map_real_fieldNames]
    have htag := sp.lookup?_spelled htells hkeys List.mem_cons_self List.mem_cons_self
    rw [sp.spell_of_isAtom rfl] at htag
    refine Coercer.refuses_class hfound' hfs' rfl htag (by simp) (Coercer.refuses_literal ?_)
    simpa [Literal.matches] using (hother y hy).symm
  · refine Coercer.fits_class hset.quiet hfound ?_ ?_
    · rwa [hfs, List.map_cons, names_of_definesFields hdefs]
    · rw [hfs]
      refine .cons ⟨rfl, Coercer.fits_literal rfl (by simp [Literal.matches])⟩ ?_
      exact fits_fields hset ih hms hbelow howned hdefs hw

/-! ## Steps of the induction -/

theorem internalName_of_find? {names : List (ShapeId × String)} {id : ShapeId} {n : String}
    (hn : Entries.find? names id = some n) (d : Declared) :
    NameTable.internalName ⟨names, tag⟩ id d = n := by
  unfold NameTable.internalName
  rw [hn]
  rfl

include hset in
theorem fits_declared {v : Native}
    (ih : AcceptedBelow g tag s c sp P v)
    {id sid : ShapeId} {x : Shape} {t : Ty Authored} {path : Path} {w : Value}
    (hl : g.land v.isNothing id = .shape sid x) (hbelow : g.Below P sid)
    (ht : Complete g tag s sid t) (hw : (Converter.mk g ⟨s.names, tag⟩).write id v path = .ok w) :
    c.Fits sp w t := by
  have hshape := (Graph.landsAt_of_land hl).shape
  cases ht with
  | struct hs hn hclass hfields =>
    obtain rfl := hshape.symm.trans hs
    obtain ⟨ms, fs, hms, hfs, rfl⟩ := (write_struct_ok hl).1 hw
    rw [internalName_of_find? hn] at hfs ⊢
    exact (fits_struct hset ih hs hbelow hn hclass hms hfs).withConstraints _
  | variants hs hdata hn hclass =>
    obtain rfl := hshape.symm.trans hs
    obtain ⟨ms, y, fs, hms, hy, hfs, rfl⟩ := (write_data_ok hl hdata).1 hw
    rw [internalName_of_find? hn] at hfs ⊢
    exact (fits_variant hset ih hs hdata (mem_of_namedVariant? hy) hbelow hn hclass hms
      hfs).withConstraints _
  | texts hs hdata =>
    obtain rfl := hshape.symm.trans hs
    obtain ⟨y, hy, rfl⟩ := (write_texts_ok hl hdata).1 hw
    have hvs := (hset.legible.plain hbelow.self).variants
    rw [hs] at hvs
    exact (fits_text hset hvs (mem_of_namedVariant? hy)).withConstraints _
  | enumRef hs hdata hn he =>
    obtain rfl := hshape.symm.trans hs
    obtain ⟨y, hy, rfl⟩ := (write_texts_ok hl hdata).1 hw
    rw [internalName_of_find? hn]
    exact (fits_variantName hset hs hdata hn he hbelow.self
      (find?_of_namedVariant? hy)).withConstraints _

include hset in
theorem accepted_step {v : Native}
    (ih : AcceptedBelow g tag s c sp P v) :
    Accepted g tag s c sp P v := by
  intro id t path w hroot ht hw
  refine fits_of_land hset v (passes_hasType s) ht (fun hl => ?_) (fun hl => ?_) ?_
  · rw [write, hl] at hw
    cases hw
    rfl
  · rw [write, hl] at hw
    cases hw
  intro sid x u hl hlands hu
  have hbelow := hroot.land hlands
  have hshape := hlands.shape
  cases hu with
  | option hs => exact absurd hs hlands.ne_option
  | pointer hs => exact absurd hs hlands.ne_pointer
  | scalar hs hscalar =>
    obtain rfl := hshape.symm.trans hs
    rw [write_scalar hl] at hw
    exact fits_scalar hw hscalar
  | list hs hinner =>
    obtain rfl := hshape.symm.trans hs
    obtain ⟨items, ws, hitems, hws, rfl⟩ := (write_list_ok hl).1 hw
    refine Coercer.fits_list hset.quiet fun y hy => ?_
    obtain ⟨z, hz, _, hwrite⟩ := mem_of_writesItems hws hy
    exact (ih z (Native.weight_item hitems hz)).1 (hbelow.item hs) hinner hwrite
  | map hs hkey hvalue =>
    obtain rfl := hshape.symm.trans hs
    obtain ⟨es, ws, hes, hws, rfl⟩ := (write_map_ok hl).1 hw
    refine Coercer.fits_map hset.quiet (Entries.nodup_ofList ws) fun y hy => ?_
    obtain ⟨z, hz, -, hwrite⟩ := exists_of_forall₂ hws (Entries.mem_of_mem_ofList hy)
    exact (ih z.2 (Native.weight_entry hes hz).2).1 (hbelow.value hs) hvalue hwrite
  | declared _ hfound => exact fits_declared hset ih hl hbelow (hset.sound.complete hfound) hw

include hset in
theorem acceptedKeyed_step {v : Native}
    (ih : AcceptedBelow g tag s c sp P v)
    (hv : Accepted g tag s c sp P v) : AcceptedKeyed g tag s c sp P v := by
  intro oid repr f owner variant id t path w hroot hentry ht hw
  refine fits_of_land hset v (passes_keyType s repr f _) ht (fun hl => ?_) (fun hl => ?_) ?_
  · rw [writeKeyed, hl] at hw
    cases hw
    rfl
  · rw [writeKeyed, hl] at hw
    cases hw
  intro sid x u hl hlands hu
  have hbelow := hroot.land hlands
  have hshape := hlands.shape
  cases hu with
  | option hs => exact absurd hs hlands.ne_option
  | pointer hs => exact absurd hs hlands.ne_pointer
  | list hs hinner =>
    obtain rfl := hshape.symm.trans hs
    obtain ⟨items, ws, hitems, hws, rfl⟩ := (writeKeyed_list_ok hl).1 hw
    refine Coercer.fits_list hset.quiet fun y hy => ?_
    obtain ⟨z, hz, _, hwrite⟩ := mem_of_writesItems hws hy
    exact (ih z (Native.weight_item hitems hz)).2 oid (hbelow.item hs) hentry hinner hwrite
  | text hs hmap hrepr hvalue =>
    subst hrepr
    obtain rfl := hshape.symm.trans hs
    obtain ⟨es, ws, hes, hws, rfl⟩ := (writeKeyed_text_ok hl).1 hw
    refine Coercer.fits_map hset.quiet (Entries.nodup_ofList ws) fun y hy => ?_
    obtain ⟨z, hz, -, hwrite⟩ := exists_of_forall₂ hws (Entries.mem_of_mem_ofList hy)
    exact (ih z.2 (Native.weight_entry hes hz).2).1 (hbelow.value hs) hvalue hwrite
  | pairs hs hmap hrepr hkey hvalue hclass =>
    subst hrepr
    obtain rfl := hshape.symm.trans hs
    obtain ⟨es, ws, hes, hws, rfl⟩ := (writeKeyed_pairs_ok hl).1 hw
    obtain ⟨target, hschema⟩ := hset.schema
    obtain ⟨cd, hfound, hdef⟩ := found_class target hset.sound hset.classes
      (hentry rfl (by rw [hmap]; rfl)) hclass
    generalize hfs : cd.fields = fs at hdef
    cases hdef with
    | entry hmap' hk hx =>
    obtain ⟨rfl, rfl, rfl⟩ : _ ∧ _ ∧ _ := by simpa using hmap.symm.trans hmap'
    refine Coercer.fits_list hset.quiet fun y hy => ?_
    obtain ⟨⟨⟨k, z⟩, i⟩, hz, k', z', hwk, hwz, rfl⟩ := exists_of_forall₂ hws hy
    obtain ⟨hkw, hzw⟩ := Native.weight_entry hes (List.fst_mem_of_mem_zipIdx hz)
    have htells := hset.legible.entry (hentry rfl (by rw [hmap]; rfl))
    refine Coercer.fits_class hset.quiet (by rw [hschema]; exact hfound) (by rwa [hfs]) ?_
    rw [hfs]
    refine .cons ⟨rfl, ?_⟩ (.cons ⟨rfl, ?_⟩ .nil)
    · exact (ih k hkw).1 (hbelow.key hs) hk hwk
    · exact (ih z hzw).1 (hbelow.value hs) hx hwz
  | other hs hplain =>
    have hs' : x.isDeclared = true ∨ ∃ y, x = .scalar y := by
      rw [← hshape]
      exact hs
    rw [writeKeyed_other hl hs'] at hw
    exact hv hbelow hplain hw

include hset in
theorem accepted (v : Native) : Accepted g tag s c sp P v ∧ AcceptedKeyed g tag s c sp P v := by
  induction hn : v.weight using Nat.strongRecOn generalizing v with
  | ind n ih =>
  have smaller : AcceptedBelow g tag s c sp P v := fun x hx => ih x.weight (hn ▸ hx) x rfl
  have hv : Accepted g tag s c sp P v := accepted_step hset smaller
  exact ⟨hv, acceptedKeyed_step hset smaller hv⟩

end

/-! ## Variants in their enum -/

/-- An enum finds the variants that it was made of, also those that it does not show: their rendered
name is the real one. -/
theorem findValue?_enumDef (n : String) (d : Declared) (vs : List Variant) (cs : List Constraint)
    (name : String) : (enumDef n d vs cs).findValue? name =
      (Variant.known? vs name).map fun x =>
        ⟨.of x.name x.rendered, x.description.or (docDescription x.doc)⟩ := by
  unfold EnumDef.findValue? Variant.known? enumDef
  rw [List.find?_map, List.find?_map]
  show Option.or ((vs.find? fun x => x.name == name).map _) _ = _
  cases hreal : vs.find? fun x => x.name == name with
  | some x => rfl
  | none =>
    rw [Option.map_none, Option.none_or, Option.none_or]
    refine congrArg (Option.map _) (List.find?_congr fun x hx => ?_)
    have hother : x.name ≠ name := by simpa using List.find?_eq_none.1 hreal x hx
    by_cases hname : x.rendered = name
    · subst hname
      simp [Name.of, hother.symm]
    · simp [Name.of, hname]

theorem findValue?_real {n : String} {d : Declared} {vs : List Variant} {cs : List Constraint}
    {x : Variant} (hx : x ∈ vs) :
    ∃ y, (enumDef n d vs cs).findValue? x.name = some y ∧ y.name.real = x.name := by
  have hknown : (vs.find? fun y => y.name == x.name).isSome :=
    List.find?_isSome.2 ⟨x, hx, beq_self_eq_true x.name⟩
  obtain ⟨y, hy⟩ := Option.isSome_iff_exists.1 hknown
  have hname : y.name = x.name := by simpa using List.find?_some hy
  rw [findValue?_enumDef, Variant.known?, hy]
  exact ⟨_, rfl, hname⟩

/-! ## Top theorem -/

theorem tells_own {names : List Name} (nd : (names.map Name.real).Nodup) (n : String) :
    Spelling.Tells (Spelling.own.field n) names := ⟨nd, fun _ _ => .inl rfl⟩

/-- Distinct names are enough to tell values that are not spelled in another way. -/
theorem legible_own (g : Graph) (tag : String) (names : List (ShapeId × String)) :
    Legible .own Shape.Plain g tag names where
  plain h := h
  struct := by
    intro id n d fields hp hs _
    refine tells_own ?_ n
    rw [map_real_fieldNames]
    refine (hp.fields fields ?_).sublist (List.filter_sublist.map _)
    rw [hs]
    exact List.mem_cons_self
  variant := by
    intro id n d own u vs x hp hs _ hx hfree
    refine tells_own ?_ _
    rw [List.map_cons, map_real_fieldNames]
    refine List.nodup_cons.2 ⟨fun hmem => ?_, ?_⟩
    · obtain ⟨f, hf, hname⟩ := List.mem_map.1 hmem
      exact (hfree f (List.mem_filter.1 hf).1).1 hname
    · refine (hp.fields x.fields ?_).sublist (List.filter_sublist.map _)
      rw [hs]
      exact List.mem_map_of_mem hx
  entry _ := tells_own (by decide) _
  enumOf cs _ _ _ _ hx := findValue?_real (List.mem_of_find?_eq_some hx)
  texts h := by cases h

/-- A built schema accepts unchanged what is written for its shape, whatever its constraints say. -/
theorem run_of_write {g : Graph} {tag : String} {root : ShapeId} {b : Bundle} {s : BuildState}
    (hb : buildSchema g root tag = (.ok b, s)) (hplain : g.Below Shape.Plain root)
    (hclasses : DistinctClasses g b.names) {v : Native} {path : Path} {w : Value}
    (hw : (Converter.mk g b.nameTable).write root v path = .ok w) (eval : Evaluator) (here : Path) :
    ∃ n, ((Coercer.mk b.schema eval .quiet).run w b.schema.target here).result = .ok (w, n) ∧
      n.explanations = [] ∧ ∀ f ∈ n.flags, f.kind = .unionMember := by
  have hfree : g.Below Shape.CodecFree root := fun i hi => (hplain i hi).codecFree
  obtain ⟨target, rfl, hsound, htarget⟩ := built_of_buildSchema hfree hb
  let c : Coercer := ⟨s.registry.freeze target, eval, .quiet⟩
  have hset : Setting g tag s c .own Shape.Plain :=
    ⟨rfl, ⟨target, rfl⟩, hsound, hclasses, legible_own g tag s.names⟩
  have hfits : c.Fits .own w target := (accepted hset v).1 hplain htarget hw
  obtain ⟨n, hn, calm⟩ := hfits.coerce rfl _ _
  rw [Spelling.spell_own] at hn
  exact ⟨n, hn, calm.1, fun f hf => by simpa [Spelling.own] using calm.2 f hf⟩

/-- A person with a role that has fields, and a quota that may be missing. -/
def personGraph : Graph where
  shapes := #[
    .struct { ident := "Person" } [
      { name := "name", shape := 1, rename := some "fullName" },
      { name := "role", shape := 2 },
      { name := "quota", shape := 4 }],
    .scalar .string,
    .enum { ident := "Role" } none false [
      { name := "Guest" },
      { name := "Member", fields := [{ name := "since", shape := 3 }] }],
    .scalar .i32,
    .option 3]

def person : Native := .object [
  ("name", .text "Ada"),
  ("role", .object [("type", .text "Member"), ("since", .big 1835)]),
  ("quota", .null)]

theorem plain_personGraph : ∀ i, (personGraph.shape i).Plain :=
  Graph.forall_shape (by decide) (by decide)

/-- What is written for the person. -/
def writtenPerson : Value := .classOf "Person" [
  ("name", .text "Ada"),
  ("role", .classOf "Role__Member" [("type", .text "Member"), ("since", .int 1835)]),
  ("quota", .null)]

theorem write_person (names : NameTable)
    (hnames : names = ⟨[(0, "Person"), (2, "Role")], "type"⟩) :
    (Converter.mk personGraph names).write 0 person {} = .ok writtenPerson := by
  subst hnames
  refine (write_struct_ok rfl).2 ⟨_, [("name", _), ("role", _), ("quota", _)], rfl, ?_, rfl⟩
  refine .cons ⟨rfl, ?_⟩ (.cons ⟨rfl, ?_⟩ (.cons ⟨rfl, ?_⟩ .nil))
  · rw [writeField_plain ⟨rfl, rfl, rfl⟩, write_scalar (s := .string) rfl]
    rfl
  · rw [writeField_plain ⟨rfl, rfl, rfl⟩]
    refine (write_data_ok rfl rfl).2 ⟨_, _, [("since", _)], rfl, rfl, ?_, rfl⟩
    refine .cons ⟨rfl, ?_⟩ .nil
    rw [writeField_plain ⟨rfl, rfl, rfl⟩, write_scalar (s := .i32) rfl]
    rfl
  · rw [writeField_plain ⟨rfl, rfl, rfl⟩]
    rw [write]
    rfl

theorem run_of_write_person : ∃ b s n,
    buildSchema personGraph 0 "type" = (.ok b, s) ∧ personGraph.Below Shape.Plain 0 ∧
    DistinctClasses personGraph b.names ∧
    (Converter.mk personGraph b.nameTable).write 0 person {} = .ok writtenPerson ∧
    ((Coercer.mk b.schema (fun _ _ => .ok true) .quiet).run writtenPerson b.schema.target {}).result
      = .ok (writtenPerson, n) ∧ n.explanations = [] ∧ ∀ f ∈ n.flags, f.kind = .unionMember := by
  have hb : ∃ b s, buildSchema personGraph 0 "type" = (.ok b, s) ∧
      b.nameTable = ⟨[(0, "Person"), (2, "Role")], "type"⟩ := ⟨_, _, rfl, rfl⟩
  obtain ⟨b, s, hb, hnames⟩ := hb
  have hplain : personGraph.Below Shape.Plain 0 := fun i _ => plain_personGraph i
  have hclasses : DistinctClasses personGraph b.nameTable.names := by
    rw [hnames]
    unfold DistinctClasses
    decide
  have hw := write_person b.nameTable hnames
  obtain ⟨n, hn⟩ := run_of_write hb hplain hclasses hw (fun _ _ => .ok true) {}
  exact ⟨b, s, n, hb, hplain, hclasses, hw, hn⟩

end Converter

end ShapeSchema
