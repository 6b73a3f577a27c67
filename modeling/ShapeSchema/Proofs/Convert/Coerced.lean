import ShapeSchema.Proofs.Convert.Formed
import ShapeSchema.Proofs.Convert.Variants

/-!
# Coerced values are readable

Parsing looks at a value twice: coercion brings it into the form of the schema's type, then the
reader follows the shape. The two agree on what that form is: a formed value of the type of a shape
is read, unless it lies outside of a domain that types cannot express (`reads_of_run`). A type does
not tell how large the whole numbers of a scalar are, how long its texts and lists have to be, or
what its keys have to say.

The shapes have to be regular for that: their fields are shown, filled in with values of their own,
and never the unit, whose null the reader takes for a missing value. The induction is on the size of
the value that coercion answers.
-/

namespace ShapeSchema

/-! ## Values outside of a domain -/

/-- Mismatches that no type rules out. -/
def Mismatch.isDomain : Mismatch → Bool
  | integerRange | notOneCharacter | listLength | integerText | mapKey => true
  | _ => false

/-- A run answers, or refuses a value that lies outside of a domain. -/
def FailsOnDomain {α : Type} (x : Except Fault α) : Prop :=
  (∃ a, x = .ok a) ∨ ∃ e, x = .error (.convert e) ∧ e.mismatch.isDomain = true

section
variable {α β : Type}

theorem failsOnDomain_ok (a : α) : FailsOnDomain (.ok a) := .inl ⟨a, rfl⟩

theorem failsOnDomain_misfit {m : Mismatch} (h : m.isDomain = true) (path : Path)
    (expected got : String) : FailsOnDomain (misfit path expected got m : Except Fault α) :=
  .inr ⟨_, rfl, h⟩

theorem FailsOnDomain.bind {x : Except Fault α} {f : α → Except Fault β} (hx : FailsOnDomain x)
    (hf : ∀ a, x = .ok a → FailsOnDomain (f a)) : FailsOnDomain (x >>= f) := by
  rcases hx with ⟨a, rfl⟩ | ⟨e, rfl, he⟩
  · exact hf a rfl
  · exact .inr ⟨e, rfl, he⟩

theorem FailsOnDomain.map {x : Except Fault α} (hx : FailsOnDomain x) (f : α → β) :
    FailsOnDomain (f <$> x) := by
  rcases hx with ⟨a, rfl⟩ | ⟨e, rfl, he⟩
  · exact failsOnDomain_ok (f a)
  · exact .inr ⟨e, rfl, he⟩

theorem failsOnDomain_mapM {f : α → Except Fault β} {xs : List α}
    (h : ∀ x ∈ xs, FailsOnDomain (f x)) : FailsOnDomain (xs.mapM f) := by
  induction xs with
  | nil => exact failsOnDomain_ok []
  | cons x xs ih =>
    rw [List.mapM_cons]
    refine (h x List.mem_cons_self).bind fun y _ => ?_
    exact (ih fun z hz => h z (List.mem_cons_of_mem x hz)).bind fun ys _ =>
      failsOnDomain_ok (y :: ys)

end

/-! ## Regular shapes -/

/-- A struct or enum whose fields have distinct names, are shown, are filled in with values of their
own and are not the unit, and whose variants are shown under distinct names. -/
structure Shape.Regular (g : Graph) (x : Shape) : Prop where
  names : x.DistinctFields
  variants : x.DistinctVariants
  shown : ∀ fs ∈ x.fieldGroups, ∀ f ∈ fs, f.skip = false
  defaults : ∀ fs ∈ x.fieldGroups, ∀ f ∈ fs, f.default.isSome = true → f.hasValue = true
  units : ∀ fs ∈ x.fieldGroups, ∀ f ∈ fs, g.unwrap f.shape ≠ .scalar .unit

namespace Converter

open Builder

section
variable {S : Schema} {c : Converter} {s : BuildState} {w : Value} {path : Path}

/-! ## Options and pointers -/

/-- A formed value is read but for its domain if it is so at the shapes that options and pointers
lead to. -/
theorem failsOnDomain_of_land (w : Value) {T : ShapeId → Ty Authored → Prop}
    (hT : Passes c.graph T) {id : ShapeId} {t : Ty Authored} {run : Except Fault Native}
    (ht : T id t) (hends : ∃ n, c.graph.Ends w.isNull id n) (hw : S.Formed w t)
    (hnull : c.graph.land w.isNull id = .null → run = .ok .null)
    (hshape : ∀ {sid x u}, c.graph.land w.isNull id = .shape sid x →
      c.graph.LandsAt id sid x → T sid u → S.Formed w u → FailsOnDomain run) :
    FailsOnDomain run := by
  cases hl : c.graph.land w.isNull id with
  | null =>
    rw [hnull hl]
    exact failsOnDomain_ok _
  | endless =>
    obtain ⟨n, hn⟩ := hends
    exact absurd hl (hn.land_ne)
  | shape sid x =>
    obtain ⟨u, hu, hformed⟩ := formed_of_landWithin hT hl ht hw
    exact hshape hl (Graph.landsAt_of_land hl) hu hformed

/-! ## Scalars and whole numbers -/

theorem failsOnDomain_readInt (x : Scalar) (n : Int) : FailsOnDomain (readInt x n path) := by
  unfold readInt
  split
  · exact failsOnDomain_ok _
  · exact failsOnDomain_misfit rfl _ _ _

theorem failsOnDomain_readScalar {x : Scalar} {t : Ty Authored} (ht : scalarType? x = some t)
    (hw : S.Formed w t) : FailsOnDomain (readScalar x w path) := by
  have integer (hx : x.isInteger = true) (ht : t = .prim .int {}) :
      FailsOnDomain (readScalar x w path) := by
    subst ht
    cases hw with
    | prim hp =>
    cases hp with
    | int n =>
      have hrun : readScalar x (.int n) path = readInt x n path := by
        cases x <;> first | rfl | cases hx
      rw [hrun]
      exact failsOnDomain_readInt x n
  cases x with
  | bool =>
    cases ht
    cases hw with
    | prim hp =>
    cases hp with
    | bool b => exact failsOnDomain_ok _
  | string =>
    cases ht
    cases hw with
    | prim hp =>
    cases hp with
    | string t => exact failsOnDomain_ok _
  | char =>
    cases ht
    cases hw with
    | prim hp =>
    cases hp with
    | string t =>
      rw [readScalar]
      split
      · exact failsOnDomain_ok _
      · exact failsOnDomain_misfit rfl _ _ _
  | f32 | f64 =>
    cases ht
    cases hw with
    | prim hp =>
    cases hp with
    | float d => exact failsOnDomain_ok _
  | unit =>
    cases ht
    cases hw with
    | prim hp =>
    cases hp with
    | null => exact failsOnDomain_ok _
  | _ => first | exact integer rfl (Option.some.inj ht).symm | cases ht

theorem failsOnDomain_readIntAs {repr : IntRepr} {x : Scalar} {a : Authored}
    (hw : S.Formed w (.prim (reprPrim repr) a)) : FailsOnDomain (readIntAs repr x w path) := by
  cases hw with
  | prim hp =>
  cases repr with
  | int64 =>
    cases hp with
    | int n => exact failsOnDomain_readInt x n
  | text =>
    cases hp with
    | string t =>
      rw [readIntAs]
      split
      · exact failsOnDomain_readInt x _
      · exact failsOnDomain_misfit rfl _ _ _

theorem failsOnDomain_listItems {kind : Collection} {inner : ShapeId} {ws : List Value} :
    FailsOnDomain (c.listItems kind inner (.list ws) path) := by
  cases kind with
  | array | set => exact failsOnDomain_ok _
  | fixed n =>
    by_cases hlen : (ws.length : Int) = n
    · exact .inl ⟨_, if_pos hlen⟩
    · exact .inr ⟨_, if_neg hlen, rfl⟩

theorem failsOnDomain_readKey (id : ShapeId) (key : String) :
    FailsOnDomain (c.readKey id key path) := by
  unfold readKey
  extract_lets refuse
  have hrefuse : FailsOnDomain refuse := failsOnDomain_misfit rfl _ _ _
  split
  · split
    · exact hrefuse
    · split
      · exact failsOnDomain_ok _
      · exact hrefuse
  · exact failsOnDomain_ok _
  · split
    · exact failsOnDomain_ok _
    · exact hrefuse
  · split
    · exact failsOnDomain_ok _
    · split
      · exact failsOnDomain_ok _
      · exact hrefuse
  · exact hrefuse
  · split
    · split
      · exact failsOnDomain_readInt _ _
      · exact hrefuse
    · split
      · exact hrefuse
      · exact failsOnDomain_ok _
  · exact hrefuse

theorem mem_of_items? {ws items : List Value} (h : (Value.list ws).items? = some items) {x : Value}
    (hx : x ∈ items) : x ∈ ws := by
  cases h
  exact hx

theorem failsOnDomain_readInts {repr : IntRepr} (w : Value) : ∀ {id : ShapeId} {t : Ty Authored}
    {path : Path}, IntType c.graph repr id t → S.Formed w t →
    FailsOnDomain (c.readInts repr id w path) := by
  induction hn : sizeOf w using Nat.strongRecOn generalizing w with
  | ind n ih =>
  intro id t path ht hw
  refine failsOnDomain_of_land w (passes_intType repr) ht (ends_of_intType ht) hw
    (fun hl => by rw [readInts, hl]) ?_
  intro sid x u hl hlands hu hformed
  have hshape := hlands.shape
  rw [readInts, hl]
  cases hu with
  | option hs => exact absurd hs hlands.ne_option
  | pointer hs => exact absurd hs hlands.ne_pointer
  | scalar hs =>
    obtain rfl := hshape.symm.trans hs
    exact failsOnDomain_readIntAs hformed
  | list hs hinner =>
    obtain rfl := hshape.symm.trans hs
    cases hformed with
    | list hitems =>
    refine failsOnDomain_listItems.bind fun items _ => ?_
    refine (failsOnDomain_mapM fun p _ => ?_).map _
    refine ih _ (hn ▸ Value.sizeOf_item items.2 p.1.property) p.1.val rfl hinner ?_
    exact hitems _ (mem_of_items? items.2 p.1.property)

end

/-! ## Classes of a regular schema -/

/-- A schema that was built from regular shapes whose classes have names of their own. -/
structure Regular (g : Graph) (tag : String) (s : BuildState) (S : Schema) : Prop where
  schema : ∃ target, S = s.registry.freeze target
  sound : Sound g tag (fun _ => False) s
  classes : DistinctClasses g s.names
  shapes : ∀ p ∈ s.names, (g.shape p.1).Regular g

section
variable {g : Graph} {tag : String} {s : BuildState} {S : Schema} (hreg : Regular g tag s S)

theorem filter_shown {x : Shape} (hx : x.Regular g) {fields : List Field}
    (hgroup : fields ∈ x.fieldGroups) : (fields.filter fun f => !f.skip) = fields :=
  List.filter_eq_self.2 fun f hf => by rw [hx.shown fields hgroup f hf]; rfl

theorem nodup_fieldNames {x : Shape} (hx : x.Regular g) {fields : List Field}
    (hgroup : fields ∈ x.fieldGroups) : ((fieldNames fields).map Name.real).Nodup := by
  rw [map_real_fieldNames, filter_shown hx hgroup]
  exact hx.names fields hgroup

/-- The fields of the class that stands for a source have distinct names. -/
theorem nodup_of_definesClass (hshapes : ∀ p ∈ s.names, (g.shape p.1).Regular g)
    {src : ClassSource} (hsrc : src ∈ classSources g s.names) {ds : List FieldDef}
    (hd : DefinesClass g tag s src ds) : ((ds.map (·.name)).map Name.real).Nodup := by
  obtain ⟨p, hp, hsrc⟩ := List.mem_flatMap.1 hsrc
  have hgroup := group_of_source hsrc
  cases hd with
  | entry => exact (by decide : ["key", "value"].Nodup)
  | struct hs hfields =>
    rw [show _ = p.1 from hgroup] at hs
    rw [names_of_definesFields hfields]
    refine nodup_fieldNames (hshapes p hp) ?_
    rw [hs]
    exact List.mem_cons_self
  | variant hs hfree hfields =>
    obtain ⟨rfl, hgroup⟩ := hgroup
    rw [List.map_cons, names_of_definesFields hfields, List.map_cons]
    refine List.nodup_cons.2 ⟨fun hmem => ?_, nodup_fieldNames (hshapes p hp) hgroup⟩
    rw [map_real_fieldNames] at hmem
    obtain ⟨f, hf, hname⟩ := List.mem_map.1 hmem
    exact (hfree f (List.mem_filter.1 hf).1).1 hname

include hreg in
theorem distinctFields_of_regular : S.DistinctFields := by
  obtain ⟨target, rfl⟩ := hreg.schema
  have registered (d : ClassDef) (hd : d ∈ (s.registry.freeze target).classes) :
      (d.fields.map (·.name.real)).Nodup := by
    obtain ⟨src, hsrc, hdef⟩ := hreg.sound.classes d (List.mem_mergeSort.1 hd)
    have := nodup_of_definesClass hreg.shapes hsrc hdef.fields
    rwa [List.map_map] at this
  exact Schema.distinctFields_of_classes registered

end

/-! ## Fields -/

section
variable {c : Converter} {s : BuildState} {S : Schema} {w : Value} {path : Path}

/-- A value is read, but for its domain, at every shape whose type it has the form of. -/
def ReadsFormed (c : Converter) (s : BuildState) (S : Schema) (w : Value) : Prop :=
  ∀ {id : ShapeId} {t : Ty Authored} {path : Path}, c.graph.Below Shape.CodecFree id →
    HasType c.graph s id t → S.Formed w t → FailsOnDomain (c.read id w path)

/-- The same below a field that writes maps in another way. -/
def ReadsFormedKeyed (c : Converter) (s : BuildState) (S : Schema) (w : Value) : Prop :=
  ∀ (oid : ShapeId) (ctx : FieldContext) {repr : KeyRepr} {f : Field} {owner : String}
    {variant : Option Variant} {id : ShapeId} {t : Ty Authored} {path : Path},
    c.graph.Below Shape.CodecFree id →
    (repr = .pairs → (c.graph.mapBelow? f.shape).isSome = true →
      ClassSource.entry oid owner variant f ∈ classSources c.graph s.names) →
    KeyType c.graph s repr f (ownerContext owner variant f) id t → S.Formed w t →
    FailsOnDomain (c.readKeyed repr ctx id w path)

/-- Every part of a value is read in both ways. -/
def ReadsFormedBelow (c : Converter) (s : BuildState) (S : Schema) (w : Value) : Prop :=
  ∀ x : Value, sizeOf x < sizeOf w → ReadsFormed c s S x ∧ ReadsFormedKeyed c s S x

/-- A formed value of a field has the form of the field's type before it was made optional, unless
it is a null that a default stands in for. -/
theorem formed_of_definedField {f : Field} {t : Ty Authored}
    (hw : S.Formed w (definedField f t).type) (hnull : w = .null → f.default = none) :
    S.Formed w t := by
  have hown : S.Formed w (t.withConstraints (constraintsOf f.checks f.asserts)) := by
    unfold definedField at hw
    simp only at hw
    split at hw
    · next hdefault =>
      refine (Schema.formed_of_optional hw).resolve_left fun hn => ?_
      rw [hnull hn] at hdefault
      cases hdefault
    · exact hw
  exact Schema.formed_withConstraints_iff.1 hown

theorem failsOnDomain_readField (hv : ReadsFormed c s S w) (hk : ReadsFormedKeyed c s S w)
    (hsound : Sound c.graph c.names.tagField (fun _ => False) s) {oid : ShapeId} {owner : String}
    {variant : Option Variant} {f : Field} {d : FieldDef} (ctx : FieldContext)
    (hcodec : f.codec = none) (hskip : f.skip = false)
    (hunit : c.graph.unwrap f.shape ≠ .scalar .unit)
    (hbelow : c.graph.Below Shape.CodecFree f.shape)
    (hentry : c.graph.writesPairs f = true →
      ClassSource.entry oid owner variant f ∈ classSources c.graph s.names)
    (hd : DefinesField c.graph s owner variant f d) (hw : S.Formed w d.type)
    (hnull : w = .null → f.default = none) : FailsOnDomain (c.readField f ctx w path) := by
  obtain ⟨t, ht, rfl⟩ := hd.bare
  have hformed := formed_of_definedField hw hnull
  have hoption : (w.isNull && !c.graph.isOption f.shape) = false := by
    cases w with
    | null => rw [isOption_of_bareType hsound ht hunit hformed]; rfl
    | _ => rfl
  rw [readField, hcodec, hoption]
  cases ht with
  | ints hr hi =>
    rw [hr]
    exact failsOnDomain_readInts w hi hformed
  | keyed hi hr hkey =>
    rw [hi, hr]
    refine hk oid ctx hbelow ?_ hkey hformed
    rintro rfl hmap
    refine hentry ?_
    unfold Graph.writesPairs
    rw [hskip, hi, hr, hmap]
    rfl
  | plain hi hr ht =>
    rw [hi, hr]
    exact hv hbelow ht hformed

/-- What a formed class value holds for the fields of a struct or variant. -/
def HoldsFields (S : Schema) (g : Graph) (s : BuildState) (owner : String)
    (variant : Option Variant) (fields : List Field) (es : List (String × Value)) : Prop :=
  ∀ f ∈ fields, ∃ v d, Entries.find? es f.name = some v ∧ DefinesField g s owner variant f d ∧
    S.Formed v d.type

theorem holdsFields_of_formed {g : Graph} {x : Shape} (hx : x.Regular g) {owner : String}
    {variant : Option Variant} {fields : List Field} (hgroup : fields ∈ x.fieldGroups)
    {ds : List FieldDef} (hd : DefinesFields g s owner variant fields ds)
    {fs : List (String × Value)}
    (hfs : List.Forall₂ (fun p d => p.1 = d.name.real ∧ S.Formed p.2 d.type) fs ds) :
    HoldsFields S g s owner variant fields fs := by
  have hkeys : Entries.keys fs = (fieldNames fields).map Name.real := by
    rw [← names_of_definesFields hd, List.map_map]
    exact (map_eq_of_forall₂ (hfs.imp fun _ _ hp => hp.1.symm)).symm
  have nd : (Entries.keys fs).Nodup := hkeys ▸ nodup_fieldNames hx hgroup
  intro f hf
  rw [← filter_shown hx hgroup] at hf
  obtain ⟨d, hdmem, hdef⟩ := exists_of_forall₂ (List.Forall₂.flip hd) hf
  obtain ⟨⟨k, v⟩, hp, hname, hv⟩ := exists_of_forall₂ hfs hdmem
  refine ⟨v, d, Entries.find?_eq_some_of_mem nd ?_, hdef, hv⟩
  have hk : k = f.name := by
    rw [show k = _ from hname, hdef.name]
    rfl
  rwa [hk] at hp

theorem failsOnDomain_readFields (ih : ReadsFormedBelow c s S w)
    (hsound : Sound c.graph c.names.tagField (fun _ => False) s) {oid : ShapeId}
    {own owner : String} {x variant : Option Variant} {fields : List Field}
    (hbelow : c.graph.Below Shape.CodecFree oid) (hshape : (c.graph.shape oid).Regular c.graph)
    (howned : Owned c.graph s oid own x fields) {es : List (String × Value)}
    (hes : w.entries? = some es) (hfields : HoldsFields S c.graph s own x fields es) :
    FailsOnDomain (c.readFields owner variant fields w es hes path) := by
  rw [readFields]
  refine failsOnDomain_mapM fun f hf => ?_
  have hgroup := howned.group
  have hskip := hshape.shown fields hgroup f hf
  obtain ⟨v, d, hv, hdef, hformed⟩ := hfields f hf
  have hlookup : f.lookup? es = some v := by
    unfold Field.lookup?
    rw [hv]
    rfl
  simp only [hskip, Bool.false_eq_true, if_false]
  split
  · next hnone =>
    rw [hlookup] at hnone
    cases hnone
  next found hfound =>
  obtain rfl : v = found := Option.some.inj (hlookup.symm.trans hfound)
  split
  · next hdefault =>
    have hvalue := hshape.defaults fields hgroup f hf (Bool.and_eq_true_iff.1 hdefault).2
    obtain ⟨n, hn⟩ := Graph.fieldDefault_ok_iff.2 (.inl hvalue : c.graph.HasDefault f)
    exact .inl ⟨_, ok_bind.2 ⟨n, hn, rfl⟩⟩
  · next hdefault =>
    obtain ⟨hread, hkeyed⟩ := ih v (Value.sizeOf_entry hes (Entries.mem_of_find?_eq_some hv))
    refine FailsOnDomain.bind ?_ fun _ _ => failsOnDomain_ok _
    refine failsOnDomain_readField hread hkeyed hsound _ (hbelow.self fields hgroup f hf) hskip
      (hshape.units fields hgroup f hf) (hbelow.child (Shape.mem_children_of_field hgroup hf))
      (howned.entries f hf) hdef hformed ?_
    rintro rfl
    simpa [Value.isNull] using hdefault

/-! ## Structs and enums -/

/-- An enum value, and a text that is read as one, names a variant. -/
theorem failsOnDomain_read_name {id sid : ShapeId} {d : Declared} {own : Option String} {u : Bool}
    {vs : List Variant} (hl : c.graph.land w.isNull id = .shape sid (.enum d own u vs))
    (hdata : isDataEnum vs = false) {name : String} (hw : w.variantName? = some name)
    (hname : ∃ x, Variant.match? vs name = some x) : FailsOnDomain (c.read id w path) := by
  obtain ⟨x, hx⟩ := hname
  have hnull : w.isNull = false := by
    cases w <;> first | rfl | cases hw
  rw [hnull] at hl
  exact .inl ⟨_, read_texts hl hdata hw hx⟩

theorem holds_text {r : String} (hw : (Literal.string r).Holds w) : w.variantName? = some r := by
  cases hw <;> rfl

variable (hreg : Regular c.graph c.names.tagField s S)
include hreg

theorem readsFormed_struct (ih : ReadsFormedBelow c s S w) {id sid : ShapeId} {d : Declared}
    {fields : List Field} {n : String}
    (hl : c.graph.land w.isNull id = .shape sid (.struct d fields))
    (hbelow : c.graph.Below Shape.CodecFree sid) (hn : Entries.find? s.names sid = some n)
    (hclass : HasClass s n) (hw : S.Formed w (.classRef n .complete false {})) :
    FailsOnDomain (c.read id w path) := by
  obtain ⟨target, rfl⟩ := hreg.schema
  have hs := (Graph.landsAt_of_land hl).shape
  have hshape := hreg.shapes _ (Entries.mem_of_find?_eq_some hn)
  obtain ⟨hsrc, howned⟩ := owned_struct hs hn
  cases hw with
  | classRef hd hfs =>
  obtain ⟨cd, hfound, hdef⟩ := found_class target hreg.sound hreg.classes hsrc hclass
  obtain rfl := Option.some.inj (hd.symm.trans hfound)
  generalize hds : ClassDef.fields _ = ds at hfs hdef
  cases hdef with
  | struct hs' hfields =>
  obtain ⟨rfl, rfl⟩ := Shape.struct.inj (hs.symm.trans hs')
  rw [read]
  · rw [hl]
    refine (failsOnDomain_readFields ih hreg.sound hbelow hshape howned rfl ?_).map _
    exact holdsFields_of_formed hshape howned.group hfields (Schema.formed_of_fieldsConform hfs)
  · rintro _ ⟨⟩

theorem readsFormed_data (ih : ReadsFormedBelow c s S w) {id sid : ShapeId} {d : Declared}
    {own : Option String} {u : Bool} {vs : List Variant} {n : String}
    (hl : c.graph.land w.isNull id = .shape sid (.enum d own u vs)) (hdata : isDataEnum vs = true)
    (hbelow : c.graph.Below Shape.CodecFree sid) (hn : Entries.find? s.names sid = some n)
    (hvariants : ∀ x ∈ vs, HasVariant c.graph (own.getD c.names.tagField) s n x)
    (hw : S.Formed w
      (Ty.unionOf (vs.map fun x => Ty.classRef (variantClassName n x) .complete false {}) {})) :
    FailsOnDomain (c.read id w path) := by
  obtain ⟨target, rfl⟩ := hreg.schema
  have hs := (Graph.landsAt_of_land hl).shape
  have hshape := hreg.shapes _ (Entries.mem_of_find?_eq_some hn)
  rw [unionOf_map fun _ => rfl] at hw
  cases hw with
  | unionMember hm hw =>
  obtain ⟨x, hx, rfl⟩ := List.mem_map.1 hm
  obtain ⟨-, howned⟩ := owned_variant hs hdata hx hn
  obtain ⟨cd, ds, hfound, -, hcd, hfree, hfields⟩ := found_variant target hreg.sound hreg.classes
    hs hdata hn (hvariants x hx).registered hx
  cases hw with
  | classRef hd hfs =>
  obtain rfl := Option.some.inj (hd.symm.trans hfound)
  rw [hcd] at hfs
  -- the tag comes first, and no field goes by its name
  cases Schema.formed_of_fieldsConform hfs with
  | @cons p _ fs _ htag hrest =>
  obtain ⟨tagName, shown⟩ := p
  obtain ⟨rfl, hshown⟩ : tagName = own.getD c.names.tagField ∧ _ := htag
  have hname : shown.variantName? = some x.rendered := by
    cases hshown with
    | literal hl => exact holds_text hl
  have hvs := hshape.variants
  rw [hs] at hvs
  have hheld := holdsFields_of_formed hshape howned.group hfields hrest
  rw [read]
  · rw [hl]
    simp only [hdata, if_true]
    split
    · next he => cases he
    next es hes =>
    cases hes
    have hfirst : Entries.find? ((own.getD c.names.tagField, shown) :: fs)
        (own.getD c.names.tagField) = some shown := by
      rw [Entries.find?_cons, if_pos (beq_self_eq_true _)]
    simp only [hfirst, hname, Option.bind_some, match?_rendered hvs hx]
    refine FailsOnDomain.bind ?_ fun _ _ => failsOnDomain_ok _
    refine failsOnDomain_readFields ih hreg.sound hbelow hshape howned rfl fun f hf => ?_
    obtain ⟨v, d, hv, hdef, hformed⟩ := hheld f hf
    refine ⟨v, d, ?_, hdef, hformed⟩
    rw [Entries.find?_cons, if_neg (by simpa using (hfree f hf).1.symm)]
    exact hv
  · rintro _ ⟨⟩

theorem readsFormed_declared (ih : ReadsFormedBelow c s S w) {id sid : ShapeId} {x : Shape}
    {t : Ty Authored} (hl : c.graph.land w.isNull id = .shape sid x)
    (hbelow : c.graph.Below Shape.CodecFree sid)
    (ht : Complete c.graph c.names.tagField s sid t) (hw : S.Formed w t) :
    FailsOnDomain (c.read id w path) := by
  have hs := (Graph.landsAt_of_land hl).shape
  cases ht with
  | struct hs' hn hclass =>
    obtain rfl := hs.symm.trans hs'
    exact readsFormed_struct hreg ih hl hbelow hn hclass (Schema.formed_withConstraints_iff.1 hw)
  | variants hs' hdata hn hvariants =>
    obtain rfl := hs.symm.trans hs'
    exact readsFormed_data hreg ih hl hdata hbelow hn hvariants
      (Schema.formed_withConstraints_iff.1 hw)
  | texts hs' hdata =>
    obtain rfl := hs.symm.trans hs'
    have hw := Schema.formed_withConstraints_iff.1 hw
    rw [unionOf_map fun _ => rfl] at hw
    cases hw with
    | unionMember hm hw =>
    obtain ⟨y, hy, rfl⟩ := List.mem_map.1 hm
    cases hw with
    | literal hheld =>
    exact failsOnDomain_read_name hl hdata (holds_text hheld) (exists_match? hy (.inl rfl))
  | enumRef hs' hdata hn he =>
    obtain rfl := hs.symm.trans hs'
    obtain ⟨target, rfl⟩ := hreg.schema
    cases Schema.formed_withConstraints_iff.1 hw with
    | enumRef hfound hvalue =>
    obtain ⟨e, hfound', d', own', u', vs', hshape', rfl⟩ := found_enum target hreg.sound hn he
    obtain ⟨rfl, rfl, rfl, rfl⟩ := Shape.enum.inj (hs'.symm.trans hshape')
    obtain rfl := Option.some.inj (hfound.symm.trans hfound')
    obtain ⟨y, hy, rfl⟩ := List.mem_map.1 hvalue
    exact failsOnDomain_read_name hl hdata rfl (exists_match? hy (.inr rfl))

/-! ## Steps of the induction -/

theorem readsFormed_step (ih : ReadsFormedBelow c s S w) : ReadsFormed c s S w := by
  intro id t path hroot ht hw
  refine failsOnDomain_of_land w (passes_hasType s) ht (ends_of_hasType ht) hw (fun hl => ?_) ?_
  · have hnull := Graph.isNull_of_landWithin hl
    rw [read, hl]
    rintro m rfl
    cases hnull
  intro sid x u hl hlands hu hformed
  have hbelow := hroot.land hlands
  have hshape := hlands.shape
  cases hu with
  | option hs => exact absurd hs hlands.ne_option
  | pointer hs => exact absurd hs hlands.ne_pointer
  | declared _ hfound =>
    exact readsFormed_declared hreg ih hl hbelow (hreg.sound.complete hfound) hformed
  | @scalar _ y _ hs hscalar =>
    obtain rfl := hshape.symm.trans hs
    rw [read]
    · rw [hl]
      exact failsOnDomain_readScalar hscalar hformed
    · rintro m rfl
      cases y <;> cases hscalar <;> cases hformed with | prim hp => cases hp
  | list hs hinner =>
    obtain rfl := hshape.symm.trans hs
    cases hformed with
    | list hitems =>
    rw [read]
    · rw [hl]
      refine failsOnDomain_listItems.bind fun items _ => ?_
      refine (failsOnDomain_mapM fun p _ => ?_).map _
      exact (ih _ (Value.sizeOf_item items.2 p.1.property)).1 (hbelow.item hs) hinner
        (hitems _ (mem_of_items? items.2 p.1.property))
    · rintro _ ⟨⟩
  | map hs _ hvalue =>
    obtain rfl := hshape.symm.trans hs
    cases hformed with
    | map hentries =>
    rw [read]
    · rw [hl]
      simp only
      split
      · next he => cases he
      next es hes =>
      cases hes
      refine (failsOnDomain_mapM fun p _ => ?_).map _
      refine FailsOnDomain.bind ?_ fun _ _ => failsOnDomain_ok _
      exact (ih _ (Value.sizeOf_entry rfl p.property)).1 (hbelow.value hs) hvalue
        (hentries _ p.property)
    · rintro _ ⟨⟩

/-- An entry of a map written as pairs holds a key and a value. -/
theorem formed_entry {oid : ShapeId} {owner : String} {variant : Option Variant} {f : Field}
    {kind : Keyed} {key value : ShapeId}
    (hsrc : ClassSource.entry oid owner variant f ∈ classSources c.graph s.names)
    (hmap : c.graph.mapBelow? f.shape = some (kind, key, value))
    (hclass : HasClass s (entryClassName (ownerContext owner variant f)).1)
    (hw : S.Formed w
      (.classRef (entryClassName (ownerContext owner variant f)).1 .complete false {})) :
    ∃ es k x, w.entries? = some es ∧ Entries.find? es "key" = some k ∧
      Entries.find? es "value" = some x ∧ (∃ t, HasType c.graph s key t ∧ S.Formed k t) ∧
      ∃ t, HasType c.graph s value t ∧ S.Formed x t := by
  obtain ⟨target, rfl⟩ := hreg.schema
  cases hw with
  | classRef hd hfs =>
  obtain ⟨cd, hfound, hdef⟩ := found_class target hreg.sound hreg.classes hsrc hclass
  obtain rfl := Option.some.inj (hd.symm.trans hfound)
  generalize hds : ClassDef.fields _ = ds at hfs hdef
  cases hdef with
  | entry hmap' hk hx =>
  obtain ⟨rfl, rfl, rfl⟩ : _ ∧ _ ∧ _ := by simpa using hmap.symm.trans hmap'
  cases Schema.formed_of_fieldsConform hfs with
  | @cons p _ _ _ hkey hrest =>
  cases hrest with
  | @cons q _ _ _ hvalue hrest =>
  cases hrest
  obtain ⟨k, v⟩ := p
  obtain ⟨k', v'⟩ := q
  obtain ⟨rfl, hkey⟩ := hkey
  obtain ⟨rfl, hvalue⟩ := hvalue
  exact ⟨_, v, v', rfl, rfl, rfl, ⟨_, hk, hkey⟩, _, hx, hvalue⟩

theorem readsFormed_pairs (ih : ReadsFormedBelow c s S w) {oid id sid : ShapeId} {owner : String}
    {variant : Option Variant} {f : Field} {ctx : FieldContext} {kind : Keyed} {key value : ShapeId}
    (hl : c.graph.land w.isNull id = .shape sid (.map kind key value))
    (hsrc : ClassSource.entry oid owner variant f ∈ classSources c.graph s.names)
    (hmap : c.graph.mapBelow? f.shape = some (kind, key, value))
    (hclass : HasClass s (entryClassName (ownerContext owner variant f)).1)
    (hkey : c.graph.Below Shape.CodecFree key) (hvalue : c.graph.Below Shape.CodecFree value)
    (hw : S.Formed w
      (.list (.classRef (entryClassName (ownerContext owner variant f)).1 .complete false {}) {})) :
    FailsOnDomain (c.readKeyed .pairs ctx id w path) := by
  obtain ⟨target, rfl⟩ := hreg.schema
  cases hw with
  | @list ws _ _ hitems =>
  rw [readKeyed, hl]
  simp only
  split
  · next he => cases he
  next items hitems' =>
  cases hitems'
  refine (failsOnDomain_mapM fun p _ => ?_).map _
  have hitem : sizeOf p.1.val < sizeOf (Value.list ws) := Value.sizeOf_item rfl p.1.property
  obtain ⟨es, k, y, hes, hk, hy, ⟨_, htk, hkformed⟩, _, hty, hyformed⟩ :=
    formed_entry hreg hsrc hmap hclass (hitems _ p.1.property)
  split
  · next hnone =>
    rw [hes] at hnone
    cases hnone
  next es' hes' =>
  obtain rfl := Option.some.inj (hes.symm.trans hes')
  split
  · next hnone =>
    rw [hk] at hnone
    cases hnone
  · next hnone =>
    rw [hy] at hnone
    cases hnone
  next k' y' hk' hy' =>
  obtain rfl := Option.some.inj (hk.symm.trans hk')
  obtain rfl := Option.some.inj (hy.symm.trans hy')
  have hkw := Value.sizeOf_entry hes (Entries.mem_of_find?_eq_some hk)
  have hyw := Value.sizeOf_entry hes (Entries.mem_of_find?_eq_some hy)
  refine FailsOnDomain.bind ?_ fun _ _ => FailsOnDomain.bind ?_ fun _ _ => failsOnDomain_ok _
  · exact (ih k (Nat.lt_trans hkw hitem)).1 hkey htk hkformed
  · exact (ih y (Nat.lt_trans hyw hitem)).1 hvalue hty hyformed

theorem readsFormedKeyed_step (ih : ReadsFormedBelow c s S w) (hself : ReadsFormed c s S w) :
    ReadsFormedKeyed c s S w := by
  intro oid ctx repr f owner variant id t path hroot hentry ht hw
  refine failsOnDomain_of_land w (passes_keyType s repr f _) ht (ends_of_keyType ht) hw
    (fun hl => by rw [readKeyed, hl]) ?_
  intro sid x u hl hlands hu hformed
  have hbelow := hroot.land hlands
  have hshape := hlands.shape
  cases hu with
  | option hs => exact absurd hs hlands.ne_option
  | pointer hs => exact absurd hs hlands.ne_pointer
  | list hs hinner =>
    obtain rfl := hshape.symm.trans hs
    cases hformed with
    | list hitems =>
    rw [readKeyed, hl]
    refine failsOnDomain_listItems.bind fun items _ => ?_
    refine (failsOnDomain_mapM fun p _ => ?_).map _
    exact (ih _ (Value.sizeOf_item items.2 p.1.property)).2 oid ctx (hbelow.item hs) hentry hinner
      (hitems _ (mem_of_items? items.2 p.1.property))
  | text hs _ hrepr hvalue =>
    subst hrepr
    obtain rfl := hshape.symm.trans hs
    cases hformed with
    | map hentries =>
    rw [readKeyed, hl]
    simp only
    split
    · next he => cases he
    next es hes =>
    cases hes
    refine (failsOnDomain_mapM fun p _ => ?_).map _
    refine (failsOnDomain_readKey _ _).bind fun _ _ =>
      FailsOnDomain.bind ?_ fun _ _ => failsOnDomain_ok _
    exact (ih _ (Value.sizeOf_entry rfl p.property)).1 (hbelow.value hs) hvalue
      (hentries _ p.property)
  | pairs hs hmap hrepr hkey hvalue hclass =>
    subst hrepr
    obtain rfl := hshape.symm.trans hs
    exact readsFormed_pairs hreg ih hl (hentry rfl (by rw [hmap]; rfl)) hmap hclass
      (hbelow.key hs) (hbelow.value hs) hformed
  | other hs hplain =>
    rw [readKeyed_other hl (by rw [← hshape]; exact hs)]
    exact hself hbelow hplain hformed

/-- What is read below a field may be read as a plain shape again, of the same value, so the step
for plain shapes comes first. -/
theorem readsFormed (w : Value) : ReadsFormed c s S w ∧ ReadsFormedKeyed c s S w := by
  induction hn : sizeOf w using Nat.strongRecOn generalizing w with
  | ind n ih =>
  have smaller : ReadsFormedBelow c s S w := fun x hx => ih _ (hn ▸ hx) x rfl
  have hw : ReadsFormed c s S w := readsFormed_step hreg smaller
  exact ⟨hw, readsFormedKeyed_step hreg smaller hw⟩

end

/-! ## Top theorem -/

/-- What a built schema accepts for its shape, the reader reads in the form that coercion has given
it, or it refuses a value outside of a domain that no type expresses. -/
theorem reads_of_run {g : Graph} {tag : String} {root : ShapeId} {b : Bundle} {s : BuildState}
    (hb : buildSchema g root tag = (.ok b, s)) (hfree : g.Below Shape.CodecFree root)
    (hshapes : ∀ p ∈ b.names, (g.shape p.1).Regular g) (hclasses : DistinctClasses g b.names)
    {c : Coercer} (hc : c.schema = b.schema) {v w : Value} {here : Path} {n : Notes}
    (hrun : (c.run v b.schema.target here).result = .ok (w, n)) (path : Path) :
    (∃ x, (Converter.mk g b.nameTable).read root w path = .ok x) ∨
      ∃ e, (Converter.mk g b.nameTable).read root w path = .error (.convert e) ∧
        e.mismatch.isDomain = true := by
  obtain ⟨target, rfl, hsound, htarget⟩ := built_of_buildSchema hfree hb
  have hreg : Regular g tag s c.schema := ⟨⟨target, hc⟩, hsound, hclasses, hshapes⟩
  have hformed : c.schema.Formed w target :=
    (Coercer.conforms_of_run (distinctFields_of_regular hreg) hrun).1
  let reader : Converter := ⟨g, ⟨s.names, tag⟩⟩
  exact (readsFormed (c := reader) hreg w).1 hfree htarget hformed

/-- A badge with a renamed level, a note that has a default and a kind. -/
def badgeGraph : Graph where
  shapes := #[
    .struct { ident := "Badge" } [
      { name := "level", shape := 1, rename := some "rank" },
      { name := "note", shape := 2, default := some (.value (.text "none")) },
      { name := "kind", shape := 3 }],
    .scalar .u8,
    .scalar .string,
    .enum { ident := "Kind" } none false [
      { name := "Day", rename := some "daily" }, { name := "Week" }]]

theorem regular_badgeGraph (i : ShapeId) : (badgeGraph.shape i).Regular badgeGraph where
  names := Graph.forall_shape (by decide) (by decide) i
  variants := Graph.forall_shape (by decide) (by decide) i
  shown := Graph.forall_shape (P := fun x => ∀ fs ∈ x.fieldGroups, ∀ f ∈ fs, f.skip = false)
    (by decide) (by decide) i
  defaults := Graph.forall_shape (P := fun x => ∀ fs ∈ x.fieldGroups, ∀ f ∈ fs,
    f.default.isSome = true → f.hasValue = true) (by decide) (by decide) i
  units := by
    refine Graph.forall_shape (P := fun x => ∀ fs ∈ x.fieldGroups, ∀ f ∈ fs,
      badgeGraph.unwrap f.shape ≠ .scalar .unit) ?_ ?_ i
    · simp [badgeGraph, Graph.shape, Graph.unwrap, Graph.size, Graph.behindPointers,
        Shape.fieldGroups]
    · simp [Shape.fieldGroups]

/-- The class of badges. -/
def badgeClass : ClassDef where
  name := ⟨"Badge", none⟩
  fields := [
    ⟨⟨"level", some "rank"⟩, .prim .int {}, none, false⟩,
    ⟨⟨"note", none⟩, .union [.prim .string {}] (some {}) {}, none, false⟩,
    ⟨⟨"kind", none⟩, .enumRef "Kind" false {}, none, false⟩]

/-- The kinds of badges. -/
def badgeKinds : EnumDef where
  name := ⟨"Kind", none⟩
  values := [⟨⟨"Day", some "daily"⟩, none⟩, ⟨⟨"Week", none⟩, none⟩]

/-- A badge as a class value, which keeps a null for its note. -/
def badge : Value :=
  .classOf "Badge" [("level", .int 3), ("note", .null), ("kind", .enumOf "Kind" "Day")]

theorem run_badge {S : Schema} (hclasses : S.classes = [badgeClass])
    (henums : S.enums = [badgeKinds]) :
    ((Coercer.mk S (fun _ _ => .ok true) .quiet).run
      (.map [("rank", .int 3), ("kind", .text "daily")]) (.classRef "Badge" .complete false {})
      {}).result = .ok (badge, { flags := [
        ⟨.optionalDefaulted, (Path.root.field "note").text, none⟩,
        ⟨.stringToEnum, (Path.root.field "kind").text, some "daily"⟩] }) := by
  simp [Coercer.run, Coercer.coerce, Coercer.coerceForm, Coercer.coerceEnum, Schema.findClass?,
    Schema.registered?, Schema.findEnum?, Value.entries?, Name.lookup?, Entries.find?,
    Schema.acceptsNull, Schema.acceptsNullAmong, hclasses, henums, badgeClass, badgeKinds,
    EnumDef.findValue?]
  rfl

theorem reads_of_run_badge : ∃ b s n, buildSchema badgeGraph 0 "type" = (.ok b, s) ∧
    badgeGraph.Below Shape.CodecFree 0 ∧
    (∀ p ∈ b.names, (badgeGraph.shape p.1).Regular badgeGraph) ∧
    DistinctClasses badgeGraph b.names ∧
    ((Coercer.mk b.schema (fun _ _ => .ok true) .quiet).run
      (.map [("rank", .int 3), ("kind", .text "daily")]) b.schema.target {}).result
        = .ok (badge, n) ∧
    ((∃ x, (Converter.mk badgeGraph b.nameTable).read 0 badge {} = .ok x) ∨
      ∃ e, (Converter.mk badgeGraph b.nameTable).read 0 badge {} = .error (.convert e) ∧
        e.mismatch.isDomain = true) := by
  obtain ⟨b, s, hb, hnames, htarget, hschema, hclasses, henums⟩ : ∃ b s,
      buildSchema badgeGraph 0 "type" = (.ok b, s) ∧ b.names = [(0, "Badge"), (3, "Kind")] ∧
      b.schema.target = .classRef "Badge" .complete false {} ∧
      b.schema = s.registry.freeze b.schema.target ∧ s.registry.classes = [badgeClass] ∧
      s.registry.enums = [badgeKinds] := ⟨_, _, rfl, rfl, rfl, rfl, rfl, rfl⟩
  have hfree : badgeGraph.Below Shape.CodecFree 0 := fun i _ =>
    Graph.forall_shape (by decide) (by decide) i
  have hshapes : ∀ p ∈ b.names, (badgeGraph.shape p.1).Regular badgeGraph :=
    fun p _ => regular_badgeGraph p.1
  have hdistinct : DistinctClasses badgeGraph b.names := by
    rw [hnames]
    unfold DistinctClasses
    decide
  let c : Coercer := ⟨b.schema, fun _ _ => .ok true, .quiet⟩
  have hrun := run_badge (S := b.schema) (by rw [hschema]; simp [Registry.freeze, hclasses])
    (by rw [hschema]; simp [Registry.freeze, henums])
  rw [← htarget] at hrun
  exact ⟨b, s, _, hb, hfree, hshapes, hdistinct, hrun,
    reads_of_run (c := c) hb hfree hshapes hdistinct rfl hrun {}⟩

end Converter

end ShapeSchema
