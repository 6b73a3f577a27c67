import ShapeSchema.Proofs.Convert.Coerced
import ShapeSchema.Proofs.Convert.Yielded
import ShapeSchema.Proofs.Shape.Clashes

/-!
# Fields that may be absent

The type of a field accepts null if the field has a default, or is an option or the unit
(`acceptsNull_definedField`). The reader treats a field that is missing and one that is null alike: it
fills in a default, and leaves an option null (`readsMember_absent`). The two agree on a field unless
it is the unit, whose null the reader refuses, or has a default that its shape has no zero value for
(`absent_agrees_iff`).
-/

namespace ShapeSchema

namespace Converter

open Builder

variable {g : Graph} {tag : String} {s : BuildState} {S : Schema}

/-! ## Types of fields -/

theorem isOptional_withConstraints (t : Ty Authored) (cs : List Constraint) :
    (t.withConstraints cs).isOptional = t.isOptional := by
  unfold Ty.withConstraints
  split
  · rfl
  · cases t with
    | prim p a => cases p <;> rfl
    | _ => rfl

/-- A field with a default is made optional. -/
theorem isOptional_definedField (f : Field) (t : Ty Authored) :
    (definedField f t).type.isOptional = (f.default.isSome || t.isOptional) := by
  unfold definedField
  simp only [isOptional_withConstraints]
  cases hdefault : f.default.isSome with
  | false => exact isOptional_withConstraints t _
  | true =>
    cases hopt : t.isOptional with
    | true => exact (isOptional_withConstraints t _).trans hopt
    | false => exact Ty.isOptional_optionalOf _ _

theorem acceptsNull_of_isOptional {t : Ty Authored} (h : t.isOptional = true) :
    S.acceptsNull t = true := by
  unfold Schema.acceptsNull
  cases t with
  | prim p a =>
    cases p with
    | null => rw [Schema.acceptsNullAmong]; rfl
    | _ => cases h
  | union ms null a =>
    rw [Schema.acceptsNullAmong, show null.isSome = true from h]
    rfl
  | _ => cases h

/-- The type of the unit is null, whatever leads to it. -/
theorem isOptional_of_unit {f : Field} {ctx : FieldContext} {t : Ty Authored}
    (ht : BareType g s f ctx t) (hunit : g.unwrap f.shape = .scalar .unit) :
    t.isOptional = true := by
  obtain ⟨sid, hl⟩ : ∃ sid, g.landWithin true (g.size + 1) f.shape = .shape sid (.scalar .unit) :=
    Graph.landWithin_of_behindPointers rfl (by rintro _ _ ⟨⟩) hunit
  have hshape : g.shape sid = .scalar .unit := (Graph.landsAt_of_landWithin hl).shape
  have lift {T : ShapeId → Ty Authored → Prop} (hT : Passes g T) (ht : T f.shape t)
      (hunit : ∀ u, T sid u → u.isOptional = true) : t.isOptional = true := by
    obtain ⟨u, hu, hlift⟩ := hT.land hl ht
    exact hlift (·.isOptional = true) (fun x _ => Ty.isOptional_optionalOf x {}) (hunit u hu)
  have plain : ∀ u, HasType g s sid u → u.isOptional = true := by
    intro u hu
    cases hu with
    | declared hd =>
      rw [hshape] at hd
      cases hd
    | scalar hs hx =>
      obtain rfl := Shape.scalar.inj (hshape.symm.trans hs)
      cases hx
      rfl
    | option hs | list hs | map hs | pointer hs => cases hshape.symm.trans hs
  cases ht with
  | ints _ hi =>
    refine lift (passes_intType _) hi fun u hu => ?_
    cases hu with
    | scalar hs hint =>
      obtain rfl := Shape.scalar.inj (hshape.symm.trans hs)
      cases hint
    | option hs | list hs | pointer hs => cases hshape.symm.trans hs
  | keyed _ _ hk =>
    refine lift (passes_keyType s _ f ctx) hk fun u hu => ?_
    cases hu with
    | other _ hu => exact plain u hu
    | option hs | list hs | pointer hs | text hs | pairs hs => cases hshape.symm.trans hs
  | plain _ _ hp => exact lift (passes_hasType s) hp plain

/-- The type of a field accepts null if the field has a default, or is an option or the unit. -/
theorem acceptsNull_definedField (hsound : Sound g tag (fun _ => False) s) {owner : String}
    {variant : Option Variant} {f : Field} {d : FieldDef}
    (hd : DefinesField g s owner variant f d) :
    S.acceptsNull d.type = true ↔
      f.default.isSome = true ∨ g.isOption f.shape = true ∨ g.unwrap f.shape = .scalar .unit := by
  obtain ⟨t, ht, rfl⟩ := hd.bare
  constructor
  · intro h
    by_cases hdefault : f.default.isSome = true
    · exact .inl hdefault
    have hformed : S.Formed .null t :=
      formed_of_definedField (Schema.formed_of_acceptsNullAmong h) fun _ => by
        simpa using hdefault
    exact .inr (option_or_unit_of_bareType hsound ht hformed)
  · intro h
    refine acceptsNull_of_isOptional ?_
    rw [isOptional_definedField, Bool.or_eq_true]
    refine h.imp_right fun h => ?_
    rcases h with hopt | hunit
    · obtain ⟨u, rfl⟩ := optional_of_isOption (r := ⟨g, ⟨[], tag⟩⟩) ht hopt
      exact Ty.isOptional_optionalOf u {}
    · exact isOptional_of_unit ht hunit

/-! ## Reading absent fields -/

variable {c : Converter} {id : ShapeId} {owner : String} {variant : Option Variant}
  {es : List (String × Value)} {f : Field} {path : Path}

/-- Something stands in for a field that is absent: its default, or null for an option. -/
def FillsIn (c : Converter) (f : Field) : Prop :=
  (f.default.isSome = true ∧ c.graph.HasDefault f) ∨
    (f.default = none ∧ c.graph.isOption f.shape = true)

/-- A null of a field without a codec is read if the field is an option. -/
theorem readField_null_iff (ctx : FieldContext) (hcodec : f.codec = none) :
    (∃ n, c.readField f ctx .null path = .ok n) ↔ c.graph.isOption f.shape = true := by
  constructor
  · rintro ⟨n, h⟩
    by_contra hopt
    rw [readField, hcodec, Bool.eq_false_iff.2 hopt] at h
    cases h
  · exact fun hopt => ⟨.null, readField_null ctx hcodec hopt⟩

/-- A field that is missing or null is read if something stands in for it. -/
theorem readsMember_absent (hskip : f.skip = false) (hcodec : f.codec = none)
    (habsent : ∀ x, f.lookup? es = some x → x = .null) :
    (∃ n, c.ReadsMember owner variant es path f n) ↔ c.FillsIn f := by
  unfold FillsIn
  cases hdefault : f.default with
  | some d =>
    have hfilled : ∀ n, c.ReadsMember owner variant es path f n ↔
        c.graph.fieldDefault f (path.field f.name) = .ok n := fun n =>
      readsMember_filled (.inr ⟨by rw [hdefault]; rfl, fun x hx => by rw [habsent x hx]; rfl⟩)
    simp only [hfilled, Graph.fieldDefault_ok_iff]
    simp
  | none =>
    cases hlookup : f.lookup? es with
    | none =>
      simp only [readsMember_missing hskip hdefault hlookup]
      simp [hcodec]
    | some x =>
      obtain rfl := habsent x hlookup
      simp only [readsMember_found hskip hlookup fun _ => hdefault]
      rw [readField_null_iff _ hcodec]
      simp

/-- The type of a field tells whether something stands in for it, unless the field has a default but
nothing to fill it in with, or no default and is the unit. -/
theorem acceptsNull_iff_fillsIn (hsound : Sound c.graph tag (fun _ => False) s) {d : FieldDef}
    (hd : DefinesField c.graph s owner variant f d) :
    (S.acceptsNull d.type = true ↔ c.FillsIn f) ↔
      (f.default.isSome = true → c.graph.HasDefault f) ∧
        (f.default = none → c.graph.unwrap f.shape ≠ .scalar .unit) := by
  rw [acceptsNull_definedField hsound hd]
  unfold FillsIn
  cases f.default with
  | some _ => simp
  | none =>
    simp only [Option.isSome_none, Bool.false_eq_true, false_and, false_or, true_and,
      false_implies, true_implies, ne_eq]
    constructor
    · intro h hunit
      have hopt := h.1 (.inr hunit)
      unfold Graph.isOption at hopt
      rw [hunit] at hopt
      cases hopt
    · exact fun hno => or_iff_left hno

/-- The reader goes through the fields of a struct, or of the variant that the tag tells, with the
entries of a value. -/
inductive Enters (c : Converter) (id : ShapeId) (v : Value) :
    Option Variant → List Field → List (String × Value) → Prop where
  | struct {d : Declared} {fields : List Field} {es : List (String × Value)} :
      c.graph.shape id = .struct d fields → v.entries? = some es → Enters c id v none fields es
  | variant {d : Declared} {own : Option String} {u : Bool} {vs : List Variant} {x : Variant}
      {es : List (String × Value)} {t : Value} :
      c.graph.shape id = .enum d own u vs → isDataEnum vs = true → v.entries? = some es →
      Entries.find? es (own.getD c.names.tagField) = some t →
      t.variantName?.bind (Variant.match? vs) = some x → Enters c id v (some x) x.fields es

theorem Enters.group {v : Value} {fields : List Field} (h : c.Enters id v variant fields es) :
    fields ∈ (c.graph.shape id).fieldGroups := by
  cases h with
  | struct hs =>
    rw [hs]
    exact List.mem_cons_self
  | variant hs _ _ _ hx =>
    obtain ⟨name, -, hmatch⟩ := Option.bind_eq_some_iff.1 hx
    rw [hs]
    exact List.mem_map_of_mem (mem_of_match? hmatch)

/-- A class value is read if all of its fields are. -/
theorem read_iff_members {v : Value} {fields : List Field} (h : c.Enters id v variant fields es)
    (hn : Entries.find? c.names.names id = some owner) :
    (∃ n, c.read id v path = .ok n) ↔
      ∀ f ∈ fields, ∃ n, c.ReadsMember owner variant es path f n := by
  have hname : ∀ d, c.names.internalName id d = owner := internalName_of_find? hn
  have hmembers : (∃ ns : List (String × Native), List.Forall₂ (fun f n => n.1 = f.name ∧
      c.ReadsMember owner variant es path f n.2) fields ns) ↔
        ∀ f ∈ fields, ∃ n, c.ReadsMember owner variant es path f n := by
    constructor
    · rintro ⟨ns, hns⟩ f hf
      obtain ⟨n, -, -, hn⟩ := exists_of_forall₂ hns.flip hf
      exact ⟨n.2, hn⟩
    · intro h
      refine exists_related fun f hf => ?_
      obtain ⟨n, hn⟩ := h f hf
      exact ⟨(f.name, n), rfl, hn⟩
  rw [← hmembers]
  cases h with
  | struct hs hes =>
    simp only [read_struct_ok (Graph.land_of_bare hs rfl _), hname]
    constructor
    · rintro ⟨_, es', ns, hes', hns, rfl⟩
      obtain rfl := Option.some.inj (hes.symm.trans hes')
      exact ⟨ns, hns⟩
    · rintro ⟨ns, hns⟩
      exact ⟨_, es, ns, hes, hns, rfl⟩
  | @variant _ _ _ _ x _ t hs hdata hes ht hx =>
    simp only [read_data_ok (Graph.land_of_bare hs rfl _) hdata, hname]
    constructor
    · rintro ⟨_, es', t', x', ns, hes', ht', hx', hns, rfl⟩
      obtain rfl := Option.some.inj (hes.symm.trans hes')
      obtain rfl := Option.some.inj (ht.symm.trans ht')
      obtain rfl := Option.some.inj (hx.symm.trans hx')
      exact ⟨ns, hns⟩
    · rintro ⟨ns, hns⟩
      exact ⟨_, es, t, x, ns, hes, ht, hx, hns, rfl⟩

/-- A class value without a field, or with null for it, is read if something stands in for the field
and all other fields are read. -/
theorem read_absent_iff {v : Value} {before after : List Field}
    (h : c.Enters id v variant (before ++ f :: after) es)
    (hn : Entries.find? c.names.names id = some owner) (hskip : f.skip = false)
    (hcodec : f.codec = none) (habsent : ∀ x, f.lookup? es = some x → x = .null)
    (hothers : ∀ other ∈ before ++ after, ∃ n, c.ReadsMember owner variant es path other n) :
    (∃ n, c.read id v path = .ok n) ↔ c.FillsIn f := by
  rw [read_iff_members h hn, ← readsMember_absent hskip hcodec habsent]
  constructor
  · exact fun h => h f (List.mem_append_right _ List.mem_cons_self)
  · intro hf other hother
    rcases List.mem_append.1 hother with hother | hother
    · exact hothers other (List.mem_append_left _ hother)
    · rcases List.mem_cons.1 hother with rfl | hother
      · exact hf
      · exact hothers other (List.mem_append_right _ hother)

/-- The fields that a reader goes through have definitions. If no two classes have the same name,
these are among the fields of the class that the schema finds. -/
theorem definesFields_of_enters (target : Ty Authored) (hs : Sound g tag (fun _ => False) s)
    {v : Value} {fields : List Field}
    (h : (Converter.mk g ⟨s.names, tag⟩).Enters id v variant fields es)
    (hn : Entries.find? s.names id = some owner) :
    ∃ ds, DefinesFields g s owner variant fields ds ∧ (DistinctClasses g s.names → ∃ cd,
      (s.registry.freeze target).findClass? (variant.elim owner (variantClassName owner))
        .complete = some cd ∧ ds ⊆ cd.fields) := by
  obtain ⟨t, hcomplete⟩ := complete_of_named hs (Entries.mem_of_find?_eq_some hn)
  simp only at hcomplete
  cases h with
  | struct hshape =>
    replace hshape : g.shape id = _ := hshape
    cases hcomplete with
    | struct hshape' hn' hclass hdefs =>
      obtain ⟨rfl, rfl⟩ := Shape.struct.inj (hshape.symm.trans hshape')
      obtain rfl := Option.some.inj (hn.symm.trans hn')
      refine ⟨_, hdefs, fun hd => ?_⟩
      obtain ⟨cd, hfound, hcd⟩ := found_class target hs hd (owned_struct hshape hn).1 hclass
      refine ⟨cd, hfound, ?_⟩
      rw [hcd.unique (.struct hshape hdefs)]
      exact List.Subset.refl _
    | variants hshape' | texts hshape' | enumRef hshape' => cases hshape.symm.trans hshape'
  | variant hshape hdata _ _ hx =>
    replace hshape : g.shape id = _ := hshape
    obtain ⟨name, -, hmatch⟩ := Option.bind_eq_some_iff.1 hx
    have hmem := mem_of_match? hmatch
    cases hcomplete with
    | struct hshape' => cases hshape.symm.trans hshape'
    | variants hshape' _ hn' hvariants =>
      obtain ⟨rfl, rfl, rfl, rfl⟩ := Shape.enum.inj (hshape.symm.trans hshape')
      obtain rfl := Option.some.inj (hn.symm.trans hn')
      obtain ⟨hclass, hfree, ds, hdefs⟩ := hvariants _ hmem
      refine ⟨ds, hdefs, fun hd => ?_⟩
      obtain ⟨cd, ds', hfound, -, hfields, -, hdefs'⟩ :=
        found_variant target hs hd hshape hdata hn hclass hmem
      refine ⟨cd, hfound, ?_⟩
      rw [hfields, hdefs.unique hdefs']
      exact List.subset_cons_self _ _
    | texts hshape' hunit | enumRef hshape' hunit =>
      obtain ⟨rfl, rfl, rfl, rfl⟩ := Shape.enum.inj (hshape.symm.trans hshape')
      rw [hdata] at hunit
      cases hunit

/-! ## Top theorem -/

/-- Take a field that is not skipped, a class value without it and one in which it is null, both with
entries for all other fields that can be read. Then the type of the field accepts null exactly if
both values are read, unless the field has a default but nothing to fill it in with, or no default
and is the unit. -/
theorem absent_agrees_iff {root : ShapeId} {b : Bundle} (hb : buildSchema g root tag = (.ok b, s))
    (hfree : g.Below Shape.CodecFree root) (hid : g.Reaches root id)
    (hn : Entries.find? b.names id = some owner) {before after : List Field}
    (hskip : f.skip = false) {v w : Value} {es' : List (String × Value)}
    (hv : (Converter.mk g b.nameTable).Enters id v variant (before ++ f :: after) es)
    (hw : (Converter.mk g b.nameTable).Enters id w variant (before ++ f :: after) es')
    (hmissing : f.lookup? es = none) (hnull : f.lookup? es' = some .null)
    (hothers : ∀ other ∈ before ++ after,
      (∃ n, (Converter.mk g b.nameTable).ReadsMember owner variant es path other n) ∧
        ∃ n, (Converter.mk g b.nameTable).ReadsMember owner variant es' path other n) :
    ∃ d, DefinesField g s owner variant f d ∧
      (DistinctClasses g b.names → ∃ cd,
        b.schema.findClass? (variant.elim owner (variantClassName owner)) .complete = some cd ∧
          d ∈ cd.fields) ∧
      ((b.schema.acceptsNull d.type = true ↔
          (∃ n, (Converter.mk g b.nameTable).read id v path = .ok n) ∧
            ∃ n, (Converter.mk g b.nameTable).read id w path = .ok n) ↔
        (f.default.isSome = true → g.HasDefault f) ∧
          (f.default = none → g.unwrap f.shape ≠ .scalar .unit)) := by
  obtain ⟨target, rfl, hs, -⟩ := built_of_buildSchema hfree hb
  obtain ⟨ds, hdefs, hfound⟩ := definesFields_of_enters target hs hv hn
  have hmem : f ∈ before ++ f :: after := List.mem_append_right _ List.mem_cons_self
  have hshown : f ∈ (before ++ f :: after).filter fun f => !f.skip :=
    List.mem_filter.2 ⟨hmem, by rw [hskip]; rfl⟩
  obtain ⟨d, hd, hdef⟩ := exists_of_forall₂ hdefs.flip hshown
  refine ⟨d, hdef, fun hclasses => ?_, ?_⟩
  · obtain ⟨cd, hcd, hsub⟩ := hfound hclasses
    exact ⟨cd, hcd, hsub hd⟩
  have hcodec : f.codec = none := hfree id hid _ hv.group f hmem
  have hv' := read_absent_iff hv hn hskip hcodec (by simp [hmissing])
    fun other h => (hothers other h).1
  have hw' := read_absent_iff hw hn hskip hcodec (by simp [hnull])
    fun other h => (hothers other h).2
  rw [hv', hw', and_self]
  exact acceptsNull_iff_fillsIn hs hdef

def titleField : Field where
  name := "title"
  shape := 1

def placeField : Field where
  name := "place"
  shape := 2

/-- Meetings, which may have a place. -/
def meeting : Variant where
  name := "Meeting"
  fields := [titleField, placeField]

def eventGraph : Graph where
  shapes := #[.enum { ident := "Event" } none false [meeting], .scalar .string, .option 1]

theorem codecFree_eventGraph : ∀ i, (eventGraph.shape i).CodecFree :=
  Graph.forall_shape (by decide) (by decide)

def planned : List (String × Value) := [("type", .text "Meeting"), ("title", .text "Retro")]

/-- Whatever else is known of a planned meeting, its fields are gone through and its title is read. -/
theorem enters_planned (more : List (String × Value)) :
    (Converter.mk eventGraph ⟨[(0, "Event")], "type"⟩).Enters 0 (.map (planned ++ more))
        (some meeting) ([titleField] ++ placeField :: []) (planned ++ more) ∧
      ∃ n, (Converter.mk eventGraph ⟨[(0, "Event")], "type"⟩).ReadsMember "Event" (some meeting)
        (planned ++ more) {} titleField n := by
  constructor
  · exact .variant (t := .text "Meeting") rfl rfl rfl rfl rfl
  · refine ⟨.text "Retro", .found rfl rfl (by rintro ⟨⟩) ?_⟩
    rw [readField_plain ⟨rfl, rfl, rfl⟩ rfl]
    exact read_scalar rfl rfl

/-- The place of a meeting may be left out, and may be null. -/
theorem absent_agrees_meeting : ∃ b s cd d, buildSchema eventGraph 0 "type" = (.ok b, s) ∧
    b.schema.findClass? (variantClassName "Event" meeting) .complete = some cd ∧ d ∈ cd.fields ∧
    (b.schema.acceptsNull d.type = true ↔
      (∃ n, (Converter.mk eventGraph b.nameTable).read 0 (.map planned) {} = .ok n) ∧
      ∃ n, (Converter.mk eventGraph b.nameTable).read 0 (.map (planned ++ [("place", .null)])) {} =
        .ok n) := by
  obtain ⟨b, s, hb, hnames, hclasses⟩ : ∃ b s,
      buildSchema eventGraph 0 "type" = (.ok b, s) ∧ b.nameTable = ⟨[(0, "Event")], "type"⟩ ∧
      DistinctClasses eventGraph b.names := by
    refine ⟨_, _, rfl, rfl, ?_⟩
    unfold DistinctClasses
    decide
  have hn : Entries.find? b.names 0 = some "Event" := by
    rw [show b.names = [(0, "Event")] from congrArg NameTable.names hnames]
    rfl
  obtain ⟨hv, htitle⟩ := enters_planned []
  obtain ⟨hw, htitle'⟩ := enters_planned [("place", .null)]
  rw [← hnames] at hv htitle hw htitle'
  obtain ⟨d, -, hfound, hagrees⟩ := absent_agrees_iff hb (fun i _ => codecFree_eventGraph i) .refl
    hn rfl hv hw rfl rfl (List.forall_mem_singleton.2 ⟨htitle, htitle'⟩)
  obtain ⟨cd, hcd, hd⟩ := hfound hclasses
  exact ⟨b, s, cd, d, hb, hcd, hd, hagrees.2 ⟨nofun, nofun⟩⟩

def atField : Field where
  name := "at"
  shape := 1

def ackField : Field where
  name := "ack"
  shape := 2

def pingGraph : Graph where
  shapes := #[.struct { ident := "Ping" } [atField, ackField], .scalar .i64, .scalar .unit]

theorem codecFree_pingGraph : ∀ i, (pingGraph.shape i).CodecFree :=
  Graph.forall_shape (by decide) (by decide)

/-- Of a ping with a time, with or without a null, the reader goes through all fields. -/
theorem enters_ping (names : NameTable) (more : List (String × Value)) :
    (Converter.mk pingGraph names).Enters 0 (.classOf "Ping" (("at", .int 1) :: more)) none
        ([atField] ++ ackField :: []) (("at", .int 1) :: more) ∧
      ∃ n, (Converter.mk pingGraph names).ReadsMember "Ping" none (("at", .int 1) :: more) {}
        atField n := by
  refine ⟨.struct rfl rfl, .big 1, .found rfl rfl (by rintro ⟨⟩) ?_⟩
  rw [readField_plain ⟨rfl, rfl, rfl⟩ rfl]
  exact read_scalar rfl rfl

/-- The type of a unit field is null, but the reader accepts the field neither missing nor null. -/
theorem absent_agrees_fails : ∃ b s cd d, buildSchema pingGraph 0 "type" = (.ok b, s) ∧
    pingGraph.Below Shape.CodecFree 0 ∧
    b.schema.findClass? "Ping" .complete = some cd ∧ d ∈ cd.fields ∧ d.name = ⟨"ack", none⟩ ∧
    b.schema.acceptsNull d.type = true ∧
    (∃ n, (Converter.mk pingGraph b.nameTable).ReadsMember "Ping" none [("at", .int 1)] {}
      atField n) ∧
    (¬ ∃ n, (Converter.mk pingGraph b.nameTable).read 0 (.classOf "Ping" [("at", .int 1)]) {} =
      .ok n) ∧
    ¬ ∃ n, (Converter.mk pingGraph b.nameTable).read 0
      (.classOf "Ping" [("at", .int 1), ("ack", .null)]) {} = .ok n := by
  obtain ⟨b, s, hb, hnames, hclasses⟩ : ∃ b s,
      buildSchema pingGraph 0 "type" = (.ok b, s) ∧ b.names = [(0, "Ping")] ∧
      DistinctClasses pingGraph b.names := by
    refine ⟨_, _, rfl, rfl, ?_⟩
    unfold DistinctClasses
    decide
  have hfree : pingGraph.Below Shape.CodecFree 0 := fun i _ => codecFree_pingGraph i
  have hn : Entries.find? b.names 0 = some "Ping" := by
    rw [hnames]
    rfl
  obtain ⟨target, rfl, hs, -⟩ := built_of_buildSchema hfree hb
  obtain ⟨ds, hdefs, hfound⟩ := definesFields_of_enters target hs (enters_ping _ []).1 hn
  obtain ⟨cd, hcd, hsub⟩ := hfound hclasses
  obtain ⟨d, hd, hdef⟩ := exists_of_forall₂ hdefs.flip (List.mem_cons_of_mem _ List.mem_cons_self)
  have refused (more : List (String × Value))
      (hack : ∀ x, ackField.lookup? (("at", .int 1) :: more) = some x → x = .null) :
      ¬ ∃ n, (Converter.mk pingGraph ⟨s.names, "type"⟩).read 0
        (.classOf "Ping" (("at", .int 1) :: more)) {} = .ok n := by
    obtain ⟨henters, hat⟩ := enters_ping ⟨s.names, "type"⟩ more
    rw [read_absent_iff henters hn rfl rfl hack (List.forall_mem_singleton.2 hat)]
    rintro (⟨h, -⟩ | ⟨-, h⟩) <;> cases h
  exact ⟨_, s, cd, d, hb, hfree, hcd, hsub hd, hdef.name,
    (acceptsNull_definedField hs hdef).2 (.inr (.inr rfl)), (enters_ping _ []).2,
    refused [] nofun, refused [("ack", .null)] (by rintro _ ⟨⟩; rfl)⟩

end Converter

end ShapeSchema
