import ShapeSchema.Proofs.Convert.Written
import ShapeSchema.Proofs.Shape.Zeros

/-!
# Conversion of supported shapes

A builder turns down the shapes that the two converters cannot handle, but it does not see all that
they do: the keys of maps that are written under texts, and the zero values of fields that are
skipped or have a default. If the keys have texts, the variants of data enums names of their own and
the fields something that can stand in for them, conversion never breaks a promise: every value of
the shape is written, and every dynamic value is read or refused (`converts_built`). A schema alone
does not guarantee that (`converts_built_fails`).

Writing is settled by `written`. For reading the induction is on the size of the dynamic value; the
type that the schema gives to a shape rules out the shapes that reading has no answer for, and says
that chains of options and pointers come to an end (`ends_of_hasType`).
-/

namespace ShapeSchema

/-! ## Runs that answer or refuse -/

/-- A run answers, or it says where a dynamic value does not fit. -/
def Decides {α : Type} (x : Except Fault α) : Prop :=
  (∃ a, x = .ok a) ∨ ∃ e, x = .error (.convert e)

section
variable {α β : Type}

theorem decides_ok (a : α) : Decides (.ok a) := .inl ⟨a, rfl⟩

theorem decides_convert (e : ConvertError) : Decides (.error (.convert e) : Except Fault α) :=
  .inr ⟨e, rfl⟩

theorem Decides.bind {x : Except Fault α} {f : α → Except Fault β} (hx : Decides x)
    (hf : ∀ a, Decides (f a)) : Decides (x >>= f) := by
  rcases hx with ⟨a, rfl⟩ | ⟨e, rfl⟩
  · exact hf a
  · exact decides_convert e

theorem Decides.map {x : Except Fault α} (hx : Decides x) (f : α → β) : Decides (f <$> x) := by
  rcases hx with ⟨a, rfl⟩ | ⟨e, rfl⟩
  · exact decides_ok (f a)
  · exact decides_convert e

theorem decides_mapM {f : α → Except Fault β} {xs : List α} (h : ∀ x ∈ xs, Decides (f x)) :
    Decides (xs.mapM f) := by
  induction xs with
  | nil => exact decides_ok []
  | cons x xs ih =>
    rw [List.mapM_cons]
    refine (h x List.mem_cons_self).bind fun y => ?_
    exact (ih fun z hz => h z (List.mem_cons_of_mem x hz)).bind fun ys => decides_ok (y :: ys)

end

/-! ## Supported shapes -/

/-- A struct or enum whose keys have texts where a field asks for them, whose variants are told by
their names, and whose fields have something that stands in for them where it may be needed. -/
structure Shape.Supported (g : Graph) (s : Shape) : Prop where
  keys : s.KeysSpoken g
  variants : s.VariantsNamed
  defaults : ∀ fs ∈ s.fieldGroups, ∀ f ∈ fs, f.skip = true ∨ f.default.isSome = true →
    g.HasDefault f

namespace Converter

open Builder

variable {c : Converter} {path : Path}

/-! ## Parts that need no schema -/

theorem decides_readInt (x : Scalar) (n : Int) : Decides (readInt x n path) := by
  unfold readInt
  split
  · exact decides_ok _
  · exact decides_convert _

theorem decides_readScalar (x : Scalar) (v : Value) : Decides (readScalar x v path) := by
  unfold readScalar
  split
  · exact decides_ok _
  · exact decides_ok _
  · split
    · exact decides_ok _
    · exact decides_convert _
  · exact decides_ok _
  · exact decides_ok _
  · exact decides_ok _
  · exact decides_ok _
  · exact decides_ok _
  · split
    · exact decides_readInt _ _
    · exact decides_convert _
  · exact decides_convert _

theorem decides_readIntAs (repr : IntRepr) (x : Scalar) (v : Value) :
    Decides (readIntAs repr x v path) := by
  unfold readIntAs
  split
  · exact decides_readInt x _
  · exact decides_convert _
  · split
    · exact decides_readInt x _
    · exact decides_convert _
  · exact decides_convert _

theorem decides_listItems (kind : Collection) (inner : ShapeId) (v : Value) :
    Decides (c.listItems kind inner v path) := by
  unfold listItems
  generalize v.items? = found
  cases found with
  | none => exact decides_convert _
  | some items =>
    cases kind with
    | array | set => exact decides_ok _
    | fixed n =>
      simp only
      split
      · exact decides_ok _
      · exact decides_convert _

theorem decides_readKey (id : ShapeId) (key : String) : Decides (c.readKey id key path) := by
  unfold readKey
  extract_lets refuse
  have hrefuse : Decides refuse := decides_convert _
  split
  · split
    · exact hrefuse
    · split
      · exact decides_ok _
      · exact hrefuse
  · exact decides_ok _
  · split
    · exact decides_ok _
    · exact hrefuse
  · split
    · exact decides_ok _
    · split
      · exact decides_ok _
      · exact hrefuse
  · exact hrefuse
  · split
    · split
      · exact decides_readInt _ _
      · exact hrefuse
    · split
      · exact hrefuse
      · exact decides_ok _
  · exact hrefuse

/-! ## Landings -/

section
variable {g : Graph}

/-- A value is read or refused if it is at the shapes that options and pointers lead to. -/
theorem decides_of_land (isNull : Bool) {T : ShapeId → Ty Authored → Prop} (hT : Passes g T)
    {id : ShapeId} {t : Ty Authored} {run : Except Fault Native} (ht : T id t)
    (hends : ∃ n, g.Ends isNull id n) (hnull : g.land isNull id = .null → run = .ok .null)
    (hshape : ∀ {sid x u}, g.land isNull id = .shape sid x → g.LandsAt id sid x → T sid u →
      Decides run) : Decides run := by
  cases hl : g.land isNull id with
  | null =>
    rw [hnull hl]
    exact decides_ok _
  | endless =>
    obtain ⟨n, hn⟩ := hends
    exact absurd hl hn.land_ne
  | shape sid x =>
    obtain ⟨u, hu, -⟩ := hT.land hl ht
    exact hshape hl (Graph.landsAt_of_land hl) hu

/-! ## Whole numbers -/

theorem decides_readInts {repr : IntRepr} (v : Value) : ∀ {id : ShapeId} {t : Ty Authored}
    {path : Path}, IntType c.graph repr id t → Decides (c.readInts repr id v path) := by
  induction hn : sizeOf v using Nat.strongRecOn generalizing v with
  | ind n ih =>
  intro id t path ht
  refine decides_of_land v.isNull (passes_intType repr) ht (ends_of_intType ht)
    (fun hl => by rw [readInts, hl]) ?_
  intro sid x u hl hlands hu
  have hshape := hlands.shape
  rw [readInts, hl]
  cases hu with
  | option hs => exact absurd hs hlands.ne_option
  | pointer hs => exact absurd hs hlands.ne_pointer
  | scalar hs =>
    obtain rfl := hshape.symm.trans hs
    exact decides_readIntAs repr _ v
  | list hs hinner =>
    obtain rfl := hshape.symm.trans hs
    refine (decides_listItems _ _ v).bind fun items => ?_
    refine (decides_mapM fun p _ => ?_).map _
    exact ih _ (hn ▸ Value.sizeOf_item items.2 p.1.property) p.1.val rfl hinner

end

/-! ## Fields -/

section
variable {s : BuildState} {v : Value}

/-- A dynamic value is read or refused at every shape that has a type. -/
def Readable (c : Converter) (s : BuildState) (v : Value) : Prop :=
  ∀ {id : ShapeId} {t : Ty Authored} {path : Path}, c.graph.Below Shape.CodecFree id →
    HasType c.graph s id t → Decides (c.read id v path)

/-- The same below a field that writes maps in another way. -/
def ReadableKeyed (c : Converter) (s : BuildState) (v : Value) : Prop :=
  ∀ (ctx : FieldContext) {repr : KeyRepr} {f : Field} {own : FieldContext} {id : ShapeId}
    {t : Ty Authored} {path : Path}, c.graph.Below Shape.CodecFree id →
    KeyType c.graph s repr f own id t → Decides (c.readKeyed repr ctx id v path)

/-- Every part of a value is read or refused in both ways. -/
def ReadableBelow (c : Converter) (s : BuildState) (v : Value) : Prop :=
  ∀ x : Value, sizeOf x < sizeOf v → Readable c s x ∧ ReadableKeyed c s x

theorem decides_fieldDefault {g : Graph} {f : Field} (h : g.HasDefault f) :
    Decides (g.fieldDefault f path) := .inl (Graph.fieldDefault_ok_iff.2 h)

theorem decides_readField (hv : Readable c s v) (hk : ReadableKeyed c s v) {owner : String}
    {variant : Option Variant} {f : Field} {d : FieldDef} (ctx : FieldContext)
    (hcodec : f.codec = none) (hbelow : c.graph.Below Shape.CodecFree f.shape)
    (hd : DefinesField c.graph s owner variant f d) : Decides (c.readField f ctx v path) := by
  obtain ⟨t, ht, -⟩ := hd.bare
  rw [readField, hcodec]
  simp only
  split
  · exact decides_convert _
  · cases ht with
    | ints hr hi =>
      rw [hr]
      exact decides_readInts v hi
    | keyed hi hr hkey =>
      rw [hi, hr]
      exact hk ctx hbelow hkey
    | plain hi hr ht =>
      rw [hi, hr]
      exact hv hbelow ht

theorem decides_readFields (ih : ReadableBelow c s v) {oid : ShapeId} {own owner : String}
    {x variant : Option Variant} {fields : List Field} {ds : List FieldDef}
    (hbelow : c.graph.Below Shape.CodecFree oid)
    (hsupported : (c.graph.shape oid).Supported c.graph)
    (hgroup : fields ∈ (c.graph.shape oid).fieldGroups)
    (hd : DefinesFields c.graph s own x fields ds) {es : List (String × Value)}
    (hes : v.entries? = some es) : Decides (c.readFields owner variant fields v es hes path) := by
  rw [readFields]
  refine decides_mapM fun f hf => ?_
  have default (h : f.skip = true ∨ f.default.isSome = true) (here : Path) :
      Decides (do return (f.name, ← c.graph.fieldDefault f here)) :=
    (decides_fieldDefault (hsupported.defaults fields hgroup f hf h)).bind fun _ => decides_ok _
  simp only
  split
  · next hskip => exact default (.inl hskip) _
  next hskip =>
  split
  · split
    · next hdefault => exact default (.inr hdefault) _
    · split
      · exact decides_ok _
      · exact decides_convert _
  · next found hfound =>
    split
    · next hdefault => exact default (.inr (Bool.and_eq_true_iff.1 hdefault).2) _
    · have hshown : f ∈ fields.filter fun f => !f.skip :=
        List.mem_filter.2 ⟨hf, by simpa using hskip⟩
      obtain ⟨d, -, hdef⟩ := exists_of_forall₂ (List.Forall₂.flip hd) hshown
      obtain ⟨key, hkey⟩ := Field.mem_of_lookup? hfound
      obtain ⟨hv, hk⟩ := ih found (Value.sizeOf_entry hes hkey)
      refine Decides.bind ?_ fun _ => decides_ok _
      exact decides_readField hv hk _ (hbelow.self fields hgroup f hf)
        (hbelow.child (Shape.mem_children_of_field hgroup hf)) hdef

/-! ## Steps of the induction -/

theorem decides_read_struct (ih : ReadableBelow c s v) (hmedia : ∀ m, v = .media m → False)
    {id sid : ShapeId} {d : Declared} {fields : List Field} {own : String} {ds : List FieldDef}
    (hl : c.graph.land v.isNull id = .shape sid (.struct d fields))
    (hbelow : c.graph.Below Shape.CodecFree sid)
    (hsupported : (c.graph.shape sid).Supported c.graph)
    (hd : DefinesFields c.graph s own none fields ds) : Decides (c.read id v path) := by
  have hs := (Graph.landsAt_of_land hl).shape
  rw [read]
  · rw [hl]
    simp only
    split
    · exact decides_convert _
    · next es hes =>
      refine (decides_readFields ih hbelow hsupported ?_ hd hes).map _
      rw [hs]
      exact List.mem_cons_self
  · exact hmedia

theorem decides_read_data (ih : ReadableBelow c s v) (hmedia : ∀ m, v = .media m → False)
    {id sid : ShapeId} {d : Declared} {own : Option String} {u : Bool} {vs : List Variant}
    {tag n : String} (hl : c.graph.land v.isNull id = .shape sid (.enum d own u vs))
    (hdata : isDataEnum vs = true) (hbelow : c.graph.Below Shape.CodecFree sid)
    (hsupported : (c.graph.shape sid).Supported c.graph)
    (hvariants : ∀ x ∈ vs, HasVariant c.graph tag s n x) : Decides (c.read id v path) := by
  have hs := (Graph.landsAt_of_land hl).shape
  rw [read]
  · rw [hl]
    simp only [hdata, if_true]
    split
    · exact decides_convert _
    next es hes =>
    split
    · exact decides_convert _
    next tagValue _ =>
    split
    · exact decides_convert _
    next x hx =>
    have hmem : x ∈ vs := by
      obtain ⟨name, -, hmatch⟩ := Option.bind_eq_some_iff.1 hx
      exact mem_of_match? hmatch
    obtain ⟨-, -, ds, hd⟩ := hvariants x hmem
    refine (decides_readFields ih hbelow hsupported ?_ hd hes).bind fun _ => decides_ok _
    rw [hs]
    exact List.mem_map_of_mem hmem
  · exact hmedia

theorem decides_read_texts (hmedia : ∀ m, v = .media m → False) {id sid : ShapeId} {d : Declared}
    {own : Option String} {u : Bool} {vs : List Variant}
    (hl : c.graph.land v.isNull id = .shape sid (.enum d own u vs))
    (hdata : isDataEnum vs = false) : Decides (c.read id v path) := by
  rw [read]
  · rw [hl]
    simp only [hdata, Bool.false_eq_true, if_false]
    split
    · exact decides_convert _
    · split
      · exact decides_convert _
      · exact decides_ok _
  · exact hmedia

variable {tag : String} (hsound : Sound c.graph tag (fun _ => False) s)
  (hsupported : ∀ p ∈ s.names, (c.graph.shape p.1).Supported c.graph)
include hsound hsupported

theorem decides_read_declared (ih : ReadableBelow c s v) (hmedia : ∀ m, v = .media m → False)
    {id sid : ShapeId} {x : Shape} {t : Ty Authored}
    (hl : c.graph.land v.isNull id = .shape sid x) (hbelow : c.graph.Below Shape.CodecFree sid)
    (ht : Entries.find? s.visited sid = some t) : Decides (c.read id v path) := by
  have hshape := (Graph.landsAt_of_land hl).shape
  have supported {n : String} (hn : Entries.find? s.names sid = some n) :
      (c.graph.shape sid).Supported c.graph :=
    hsupported (sid, n) (Entries.mem_of_find?_eq_some hn)
  cases hsound.complete ht with
  | struct hs hn _ hfields =>
    obtain rfl := hshape.symm.trans hs
    exact decides_read_struct ih hmedia hl hbelow (supported hn) hfields
  | variants hs hdata hn hvariants =>
    obtain rfl := hshape.symm.trans hs
    exact decides_read_data ih hmedia hl hdata hbelow (supported hn) hvariants
  | texts hs hdata | enumRef hs hdata =>
    obtain rfl := hshape.symm.trans hs
    exact decides_read_texts hmedia hl hdata

theorem readable_step (ih : ReadableBelow c s v) : Readable c s v := by
  intro id t path hroot ht
  by_cases hm : ∃ m, v = .media m
  · obtain ⟨m, rfl⟩ := hm
    rw [read]
    exact decides_convert _
  have hmedia : ∀ m, v = .media m → False := fun m h => hm ⟨m, h⟩
  refine decides_of_land v.isNull (passes_hasType s) ht (ends_of_hasType ht) (fun hl => ?_) ?_
  · rw [read, hl]
    exact hmedia
  intro sid x u hl hlands hu
  have hbelow := hroot.land hlands
  have hshape := hlands.shape
  cases hu with
  | option hs => exact absurd hs hlands.ne_option
  | pointer hs => exact absurd hs hlands.ne_pointer
  | declared _ hfound =>
    exact decides_read_declared hsound hsupported ih hmedia hl hbelow hfound
  | scalar hs =>
    obtain rfl := hshape.symm.trans hs
    rw [read]
    · rw [hl]
      exact decides_readScalar _ v
    · exact hmedia
  | list hs hinner =>
    obtain rfl := hshape.symm.trans hs
    rw [read]
    · rw [hl]
      refine (decides_listItems _ _ v).bind fun items => ?_
      refine (decides_mapM fun p _ => ?_).map _
      exact (ih _ (Value.sizeOf_item items.2 p.1.property)).1 (hbelow.item hs) hinner
    · exact hmedia
  | map hs _ hvalue =>
    obtain rfl := hshape.symm.trans hs
    rw [read]
    · rw [hl]
      simp only
      split
      · exact decides_convert _
      next es hes =>
      refine (decides_mapM fun p _ => ?_).map _
      refine Decides.bind ?_ fun _ => decides_ok _
      exact (ih _ (Value.sizeOf_entry hes p.property)).1 (hbelow.value hs) hvalue
    · exact hmedia

omit hsound hsupported in
theorem readableKeyed_step (ih : ReadableBelow c s v) (hself : Readable c s v) :
    ReadableKeyed c s v := by
  intro ctx repr f own id t path hroot ht
  refine decides_of_land v.isNull (passes_keyType s repr f own) ht (ends_of_keyType ht)
    (fun hl => by rw [readKeyed, hl]) ?_
  intro sid x u hl hlands hu
  have hbelow := hroot.land hlands
  have hshape := hlands.shape
  cases hu with
  | option hs => exact absurd hs hlands.ne_option
  | pointer hs => exact absurd hs hlands.ne_pointer
  | list hs hinner =>
    obtain rfl := hshape.symm.trans hs
    rw [readKeyed, hl]
    refine (decides_listItems _ _ v).bind fun items => ?_
    refine (decides_mapM fun p _ => ?_).map _
    exact (ih _ (Value.sizeOf_item items.2 p.1.property)).2 ctx (hbelow.item hs) hinner
  | text hs _ hrepr hvalue =>
    subst hrepr
    obtain rfl := hshape.symm.trans hs
    rw [readKeyed, hl]
    simp only
    split
    · exact decides_convert _
    next es hes =>
    refine (decides_mapM fun p _ => ?_).map _
    refine (decides_readKey _ _).bind fun _ => Decides.bind ?_ fun _ => decides_ok _
    exact (ih _ (Value.sizeOf_entry hes p.property)).1 (hbelow.value hs) hvalue
  | pairs hs _ hrepr hkey hvalue =>
    subst hrepr
    obtain rfl := hshape.symm.trans hs
    rw [readKeyed, hl]
    simp only
    split
    · exact decides_convert _
    next items hitems =>
    refine (decides_mapM fun p _ => ?_).map _
    split
    · exact decides_convert _
    next es hes =>
    have hitem : sizeOf p.1.val < sizeOf v := Value.sizeOf_item hitems p.1.property
    split
    · exact decides_convert _
    · exact decides_convert _
    next k y hk hy =>
    have hkw := Value.sizeOf_entry hes (Entries.mem_of_find?_eq_some hk)
    have hyw := Value.sizeOf_entry hes (Entries.mem_of_find?_eq_some hy)
    refine Decides.bind ?_ fun _ => Decides.bind ?_ fun _ => decides_ok _
    · exact (ih k (Nat.lt_trans hkw hitem)).1 (hbelow.key hs) hkey
    · exact (ih y (Nat.lt_trans hyw hitem)).1 (hbelow.value hs) hvalue
  | other hs hplain =>
    rw [readKeyed_other hl (by rw [← hshape]; exact hs)]
    exact hself hbelow hplain

/-- What is read below a field may be read as a plain shape again, of the same value, so the step for
plain shapes comes first. -/
theorem readable (v : Value) : Readable c s v ∧ ReadableKeyed c s v := by
  induction hn : sizeOf v using Nat.strongRecOn generalizing v with
  | ind n ih =>
  have smaller : ReadableBelow c s v := fun x hx => ih _ (hn ▸ hx) x rfl
  have hv : Readable c s v := readable_step hsound hsupported smaller
  exact ⟨hv, readableKeyed_step smaller hv⟩

end

/-! ## Top theorem -/

/-- If the structs and enums that a schema names are supported, every value of the shape is written,
and every dynamic value is read or refused for not fitting. -/
theorem converts_built {g : Graph} {tag : String} {root : ShapeId} {b : Bundle} {s : BuildState}
    (hb : buildSchema g root tag = (.ok b, s)) (hfree : g.Below Shape.CodecFree root)
    (hsupported : ∀ p ∈ b.names, (g.shape p.1).Supported g) :
    (∀ v, OfShape g tag root v → ∀ path,
      ∃ w, (Converter.mk g b.nameTable).write root v path = .ok w) ∧
    ∀ w path, (∃ v, (Converter.mk g b.nameTable).read root w path = .ok v) ∨
      ∃ e, (Converter.mk g b.nameTable).read root w path = .error (.convert e) := by
  obtain ⟨target, rfl, hsound, htarget⟩ := built_of_buildSchema hfree hb
  have supported {id : ShapeId} {n : String} (hn : Entries.find? s.names id = some n) :
      (g.shape id).Supported g := hsupported (id, n) (Entries.mem_of_find?_eq_some hn)
  have hready : Ready Shape.CodecFree g tag s :=
    ⟨hsound, id, fun _ hn => (supported hn).keys, fun _ hn => (supported hn).variants⟩
  let c : Converter := ⟨g, ⟨s.names, tag⟩⟩
  refine ⟨fun v hv path => (written hready v).1 hfree htarget hv path, fun w path => ?_⟩
  have hread : Readable c s w := (readable (c := c) hsound hsupported w).1
  exact hread hfree htarget

/-- A shelf that counts by numbers, with a note that may be missing and a cache that is not shown.
-/
def shelfGraph : Graph where
  shapes := #[
    .struct { ident := "Shelf" } [
      { name := "counts", shape := 1, keyRepr := some .text },
      { name := "note", shape := 3, default := some .zero },
      { name := "cache", shape := 4, skip := true }],
    .map .map 2 2,
    .scalar .i64,
    .scalar .string,
    .list (.fixed 1) 2]

def shelf : Native := .object [
  ("counts", .map [(.big 7, .big 2)]), ("note", .text "top"), ("cache", .array [.big 0])]

theorem codecFree_shelfGraph : ∀ i, (shelfGraph.shape i).CodecFree :=
  Graph.forall_shape (by decide) (by decide)

theorem hasZero_shelfGraph {i : ShapeId} (hi : i = 2 ∨ i = 3 ∨ i = 4) : shelfGraph.HasZero i := by
  have hnumber : shelfGraph.HasZero 2 := .intro rfl fun part hp => by cases hp
  rcases hi with rfl | rfl | rfl
  · exact hnumber
  · exact .intro rfl fun part hp => by cases hp
  · refine .intro rfl fun part hp => ?_
    obtain ⟨-, rfl⟩ := Shape.mem_zeroParts_fixed.1 hp
    exact hnumber

theorem supported_shelfGraph : (shelfGraph.shape 0).Supported shelfGraph where
  keys := by
    intro fs hfs f hf hr kind key value hmap
    obtain rfl := List.mem_singleton.1 hfs
    simp only [List.mem_cons, List.not_mem_nil, or_false] at hf
    rcases hf with rfl | rfl | rfl
    · cases hmap
      exact (by decide : Scalar.i64 ≠ .unit)
    · cases hr
    · cases hr
  variants := trivial
  defaults := by
    intro fs hfs f hf hneeded
    obtain rfl := List.mem_singleton.1 hfs
    simp only [List.mem_cons, List.not_mem_nil, or_false] at hf
    rcases hf with rfl | rfl | rfl
    · rcases hneeded with h | h <;> cases h
    · exact .inr (hasZero_shelfGraph (.inr (.inl rfl)))
    · exact .inr (hasZero_shelfGraph (.inr (.inr rfl)))

theorem ofShape_shelf : OfShape shelfGraph "type" 0 shelf := by
  have number (n : Int) (h : Scalar.i64.admits n = true) : OfShape shelfGraph "type" 2 (.big n) :=
    .scalar rfl ⟨n, h, rfl⟩
  have counts : OfShape shelfGraph "type" 1 (.map [(.big 7, .big 2)]) := by
    refine .map rfl ⟨?_, List.pairwise_singleton _ _⟩ ?_ ?_
    · intro k hk
      obtain rfl := List.mem_singleton.1 hk
      rfl
    · intro p hp
      obtain rfl := List.mem_singleton.1 hp
      exact number 7 (by decide)
    · intro p hp
      obtain rfl := List.mem_singleton.1 hp
      exact number 2 (by decide)
  refine .struct rfl (.refl _) ?_ ?_
  · intro f hf v hv
    simp only [List.mem_cons, List.not_mem_nil, or_false] at hf
    rcases hf with rfl | rfl | rfl
    · cases hv
      exact counts
    · cases hv
      exact .scalar rfl ⟨_, rfl⟩
    · cases hv
      refine .array rfl (by rintro ⟨⟩) (fun n hn => by cases hn; rfl) fun x hx => ?_
      obtain rfl := List.mem_singleton.1 hx
      exact number 0 (by decide)
  · intro f hf v _ hr
    simp only [List.mem_cons, List.not_mem_nil, or_false] at hf
    rcases hf with rfl | rfl | rfl <;> cases hr

theorem converts_built_shelf : ∃ b s, buildSchema shelfGraph 0 "type" = (.ok b, s) ∧
    shelfGraph.Below Shape.CodecFree 0 ∧
    (∀ p ∈ b.names, (shelfGraph.shape p.1).Supported shelfGraph) ∧
    OfShape shelfGraph "type" 0 shelf ∧
    (∃ w, (Converter.mk shelfGraph b.nameTable).write 0 shelf {} = .ok w) ∧
    ∀ w path, (∃ v, (Converter.mk shelfGraph b.nameTable).read 0 w path = .ok v) ∨
      ∃ e, (Converter.mk shelfGraph b.nameTable).read 0 w path = .error (.convert e) := by
  obtain ⟨b, s, hb, hnames⟩ : ∃ b s, buildSchema shelfGraph 0 "type" = (.ok b, s) ∧
      b.names = [(0, "Shelf")] := ⟨_, _, rfl, rfl⟩
  have hfree : shelfGraph.Below Shape.CodecFree 0 := fun i _ => codecFree_shelfGraph i
  have hsupported : ∀ p ∈ b.names, (shelfGraph.shape p.1).Supported shelfGraph := by
    rw [hnames]
    intro p hp
    obtain rfl := List.mem_singleton.1 hp
    exact supported_shelfGraph
  obtain ⟨hwritten, hread⟩ := converts_built hb hfree hsupported
  exact ⟨b, s, hb, hfree, hsupported, ofShape_shelf, hwritten shelf ofShape_shelf {}, hread⟩

/-- Counts by names which may be missing. -/
def countsField : Field where
  name := "counts"
  shape := 1
  keyRepr := some .text

/-- A kind that is not shown, and that no value can stand in for. -/
def kindField : Field where
  name := "kind"
  shape := 5
  skip := true

def binGraph : Graph where
  shapes := #[
    .struct { ident := "Bin" } [countsField, kindField],
    .map .map 2 4,
    .option 3,
    .scalar .string,
    .scalar .i64,
    .enum { ident := "Kind" } none false [
      { name := "Deep", fields := [{ name := "by", shape := 4 }] }]]

def bin : Native := .object [
  ("counts", .map [(.null, .big 2)]),
  ("kind", .object [("type", .text "Deep"), ("by", .big 1)])]

theorem ofShape_bin : OfShape binGraph "type" 0 bin := by
  have number (n : Int) (h : Scalar.i64.admits n = true) : OfShape binGraph "type" 4 (.big n) :=
    .scalar rfl ⟨n, h, rfl⟩
  have counts : OfShape binGraph "type" 1 (.map [(.null, .big 2)]) := by
    refine .map rfl ⟨?_, List.pairwise_singleton _ _⟩ ?_ ?_
    · intro k hk
      obtain rfl := List.mem_singleton.1 hk
      rfl
    · intro p hp
      obtain rfl := List.mem_singleton.1 hp
      exact .nothing rfl
    · intro p hp
      obtain rfl := List.mem_singleton.1 hp
      exact number 2 (by decide)
  have kind : OfShape binGraph "type" 5 (.object [("type", .text "Deep"), ("by", .big 1)]) := by
    refine .data rfl rfl (.head _) (.refl _) rfl ?_ ?_
    · intro f hf v hv
      obtain rfl := List.mem_singleton.1 hf
      cases hv
      exact number 1 (by decide)
    · intro f hf v _ hr
      obtain rfl := List.mem_singleton.1 hf
      cases hr
  refine .struct rfl (.refl _) ?_ ?_
  · intro f hf v hv
    simp only [List.mem_cons, List.not_mem_nil, or_false] at hf
    rcases hf with rfl | rfl
    · cases hv
      exact counts
    · cases hv
      exact kind
  · intro f hf v _ hr
    simp only [List.mem_cons, List.not_mem_nil, or_false] at hf
    rcases hf with rfl | rfl <;> cases hr

theorem codecFree_binGraph : ∀ i, (binGraph.shape i).CodecFree :=
  Graph.forall_shape (by decide) (by decide)

theorem write_bin (names : NameTable) : (Converter.mk binGraph names).write 0 bin {} =
    .error (.violation ⟨.keyWithoutText "object", Path.root.field "counts"⟩) := by
  have hcounts (ctx : FieldContext) : (Converter.mk binGraph names).writeField countsField ctx
      (.map [(.null, .big 2)]) (Path.root.field "counts") =
      .error (.violation ⟨.keyWithoutText "object", Path.root.field "counts"⟩) := by
    rw [writeField]
    show (Converter.mk binGraph names).writeKeyed .text ctx 1 _ _ = _
    rw [writeKeyed]
    rfl
  have hfields (owner : String) (ms : List (String × Native)) (h : bin.members? = some ms) :
      (Converter.mk binGraph names).writeFields owner none [countsField, kindField] bin ms h {} =
        .error (.violation ⟨.keyWithoutText "object", Path.root.field "counts"⟩) := by
    obtain rfl := Option.some.inj h
    have hshown : ([countsField, kindField].filter fun f => !f.skip) = [countsField] := rfl
    rw [writeFields, hshown, List.mapM_cons]
    show ((do return ("counts", ← (Converter.mk binGraph names).writeField countsField _
      (.map [(.null, .big 2)]) (Path.root.field "counts"))) >>= _) = _
    rw [hcounts]
    rfl
  rw [write]
  let owner := names.internalName 0 { ident := "Bin" }
  exact congrArg (fun run => run >>= fun fs => pure (Value.ofFields owner fs)) (hfields owner _ rfl)

theorem read_bin (names : NameTable) :
    (Converter.mk binGraph names).read 0 (.classOf "Bin" [("counts", .map [])]) {} =
      .error (.violation ⟨.noFirstVariant "Kind", Path.root.field "kind"⟩) := by
  have hcounts (ctx : FieldContext) : (Converter.mk binGraph names).readField countsField ctx
      (.map []) (Path.root.field "counts") = .ok (.map []) := by
    rw [readField]
    show (Converter.mk binGraph names).readKeyed .text ctx 1 _ _ = _
    rw [readKeyed]
    rfl
  have hfields (owner : String) (es : List (String × Value))
      (h : (Value.classOf "Bin" [("counts", .map [])]).entries? = some es) :
      (Converter.mk binGraph names).readFields owner none [countsField, kindField]
        (.classOf "Bin" [("counts", .map [])]) es h {} =
        .error (.violation ⟨.noFirstVariant "Kind", Path.root.field "kind"⟩) := by
    obtain rfl := Option.some.inj h
    rw [readFields, List.mapM_cons]
    show ((do return ("counts", ← (Converter.mk binGraph names).readField countsField _
      (.map []) (Path.root.field "counts"))) >>= _) = _
    rw [hcounts]
    rfl
  rw [read]
  · exact congrArg (Native.record <$> ·) (hfields (names.internalName 0 _) _ rfl)
  · intro m hm
    cases hm

/-- A schema is built, but a value of its shape cannot be written, and no dynamic value of the
struct can be read. -/
theorem converts_built_fails : ∃ b s, buildSchema binGraph 0 "type" = (.ok b, s) ∧
    binGraph.Below Shape.CodecFree 0 ∧ OfShape binGraph "type" 0 bin ∧
    (Converter.mk binGraph b.nameTable).write 0 bin {} =
      .error (.violation ⟨.keyWithoutText "object", Path.root.field "counts"⟩) ∧
    (Converter.mk binGraph b.nameTable).read 0 (.classOf "Bin" [("counts", .map [])]) {} =
      .error (.violation ⟨.noFirstVariant "Kind", Path.root.field "kind"⟩) := by
  obtain ⟨b, s, hb⟩ : ∃ b s, buildSchema binGraph 0 "type" = (.ok b, s) := ⟨_, _, rfl⟩
  exact ⟨b, s, hb, fun i _ => codecFree_binGraph i, ofShape_bin, write_bin b.nameTable,
    read_bin b.nameTable⟩

end Converter

end ShapeSchema
