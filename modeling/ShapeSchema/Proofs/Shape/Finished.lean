import ShapeSchema.Proofs.Lists
import ShapeSchema.Proofs.Schema.Closed
import ShapeSchema.Proofs.Shape.Found
import ShapeSchema.Proofs.Shape.Terminates

/-!
# Finished schemas

A builder hands out a reference to a struct or enum before it has a definition for it. Once nothing
is being walked any more, every reference that a type or a field holds is registered (`Offers`), and
the frozen schema finds it. Together with the bound on the walk this gives the main result: building
a schema ends, and every name in a schema that was built has its definition.
-/

namespace ShapeSchema

/-- Every class that a type names is found in both modes, and every enum. -/
structure Schema.Finds (s : Schema) (t : Ty Authored) : Prop where
  classes : ∀ name ∈ t.classNames, ∀ mode, (s.findClass? name mode).isSome = true
  enums : ∀ name ∈ t.enumNames, (s.findEnum? name).isSome = true

namespace Builder

variable {g : Graph} {tag : String} {s : BuildState}

/-! ## References that are registered -/

/-- What a node refers to is registered; no shape is built by way of an alias. -/
def Offers (s : BuildState) : Reference → Prop
  | .classOf name => HasClass s name
  | .enumOf name => ∃ e ∈ s.registry.enums, e.name.real = name
  | .aliasOf _ => False

/-- Everything that a type refers to is registered. -/
def OffersAll (s : BuildState) (t : Ty Authored) : Prop := ∀ r, t.Mentions r → Offers s r

theorem OffersAll.optional {t : Ty Authored} (h : OffersAll s t) : OffersAll s t.optional :=
  fun r hr => h r ((Ty.mentions_optional t).1 hr)

theorem OffersAll.list {t : Ty Authored} (h : OffersAll s t) (a : Authored) :
    OffersAll s (.list t a) := fun r hr => h r ((Ty.mentions_list t a).1 hr)

theorem OffersAll.textMap {t : Ty Authored} (h : OffersAll s t) (a b : Authored) :
    OffersAll s (.map (.prim .string a) t b) := by
  intro r hr
  rcases (Ty.mentions_map _ t b).1 hr with hr | hr
  · exact absurd hr (Ty.mentions_prim .string a)
  · exact h r hr

theorem OffersAll.withConstraints {t : Ty Authored} (h : OffersAll s t) (cs : List Constraint) :
    OffersAll s (t.withConstraints cs) := fun r hr => h r ((Ty.mentions_withConstraints t cs).1 hr)

theorem OffersAll.unionOf {ts : List (Ty Authored)} (h : ∀ t ∈ ts, OffersAll s t)
    (a : Authored) : OffersAll s (.unionOf ts a) := by
  intro r hr
  obtain ⟨t, ht, hr⟩ := Ty.mentions_unionOf hr
  exact h t ht r hr

theorem offersAll_prim (p : Prim) (a : Authored) : OffersAll s (.prim p a) :=
  fun _ hr => absurd hr (Ty.mentions_prim p a)

theorem offersAll_literal (l : Literal) (a : Authored) : OffersAll s (.literal l a) :=
  fun _ hr => absurd hr (Ty.mentions_literal l a)

theorem offersAll_classRef {name : String} (h : HasClass s name) (m : Mode) (d : Bool)
    (a : Authored) : OffersAll s (.classRef name m d a) := by
  intro r hr
  rw [(Ty.mentions_classRef name m d a).1 hr]
  exact h

theorem offersAll_enumRef {name : String} (h : ∃ e ∈ s.registry.enums, e.name.real = name)
    (d : Bool) (a : Authored) : OffersAll s (.enumRef name d a) := by
  intro r hr
  rw [(Ty.mentions_enumRef name d a).1 hr]
  exact h

/-! ## Types of shapes -/

theorem Complete.offersAll {id : ShapeId} {t : Ty Authored} (h : Complete g tag s id t) :
    OffersAll s t := by
  cases h with
  | struct _ _ hc _ => exact (offersAll_classRef hc _ _ _).withConstraints _
  | variants _ _ _ hv =>
    refine OffersAll.withConstraints (.unionOf (fun t ht => ?_) _) _
    obtain ⟨v, hmem, rfl⟩ := List.mem_map.1 ht
    exact offersAll_classRef (hv v hmem).registered _ _ _
  | texts =>
    refine OffersAll.withConstraints (.unionOf (fun t ht => ?_) _) _
    obtain ⟨v, -, rfl⟩ := List.mem_map.1 ht
    exact offersAll_literal _ _
  | enumRef _ _ _ he => exact (offersAll_enumRef he _ _).withConstraints _

theorem offersAll_of_scalarType? {x : Scalar} {t : Ty Authored} (h : scalarType? x = some t) :
    OffersAll s t := by
  cases x with
  | u64 | usize | i128 | u128 => cases h
  | _ =>
    cases h
    exact offersAll_prim _ _

/-- Once nothing is being walked, the type of a shape refers only to what is registered. -/
theorem HasType.offersAll (hs : Sound g tag (fun _ => False) s) {id : ShapeId} {t : Ty Authored}
    (h : HasType g s id t) : OffersAll s t := by
  induction h with
  | declared _ hv => exact (hs.complete hv).offersAll
  | scalar _ ht => exact offersAll_of_scalarType? ht
  | option _ _ ih => exact ih.optional
  | list _ _ ih => exact ih.list _
  | map _ _ _ ih => exact ih.textMap _ _
  | pointer _ _ ih => exact ih

theorem IntType.offersAll {repr : IntRepr} {id : ShapeId} {t : Ty Authored}
    (h : IntType g repr id t) : OffersAll s t := by
  induction h with
  | option _ _ ih => exact ih.optional
  | list _ _ ih => exact ih.list _
  | pointer _ _ ih => exact ih
  | scalar _ _ => exact offersAll_prim _ _

theorem KeyType.offersAll (hs : Sound g tag (fun _ => False) s) {repr : KeyRepr} {f : Field}
    {ctx : FieldContext} {id : ShapeId} {t : Ty Authored} (h : KeyType g s repr f ctx id t) :
    OffersAll s t := by
  induction h with
  | option _ _ ih => exact ih.optional
  | list _ _ ih => exact ih.list _
  | pointer _ _ ih => exact ih
  | text _ _ _ ht => exact (ht.offersAll hs).textMap _ _
  | pairs _ _ _ _ _ hc => exact (offersAll_classRef hc _ _ _).list _
  | other _ ht => exact ht.offersAll hs

/-! ## Definitions -/

theorem BareType.offersAll (hs : Sound g tag (fun _ => False) s) {f : Field} {ctx : FieldContext}
    {t : Ty Authored} (h : BareType g s f ctx t) : OffersAll s t := by
  cases h with
  | ints _ ht => exact ht.offersAll
  | keyed _ _ ht => exact ht.offersAll hs
  | plain _ _ ht => exact ht.offersAll hs

theorem DefinesField.offersAll (hs : Sound g tag (fun _ => False) s) {owner : String}
    {v : Option Variant} {f : Field} {d : FieldDef} (h : DefinesField g s owner v f d) :
    OffersAll s d.type := by
  obtain ⟨t, cs, ht, hd⟩ := h.type
  have hbare := (ht.offersAll hs).withConstraints cs
  rcases hd with hd | hd
  · rw [hd]
    exact hbare
  · rw [hd]
    exact hbare.optional

theorem DefinesFields.offersAll (hs : Sound g tag (fun _ => False) s) {owner : String}
    {v : Option Variant} {fields : List Field} {defs : List FieldDef}
    (h : DefinesFields g s owner v fields defs) : ∀ d ∈ defs, OffersAll s d.type := by
  intro d hd
  obtain ⟨f, -, hf⟩ := exists_of_forall₂ h hd
  exact hf.offersAll hs

theorem DefinesClass.offersAll (hs : Sound g tag (fun _ => False) s) {src : ClassSource}
    {defs : List FieldDef} (h : DefinesClass g tag s src defs) :
    ∀ d ∈ defs, OffersAll s d.type := by
  intro d hd
  cases h with
  | struct _ hf => exact hf.offersAll hs d hd
  | variant _ _ hf =>
    rcases List.mem_cons.1 hd with rfl | hd
    · exact offersAll_literal _ _
    · exact hf.offersAll hs d hd
  | entry _ hk hx =>
    rcases List.mem_cons.1 hd with rfl | hd
    · exact hk.offersAll hs
    · rw [List.mem_singleton.1 hd]
      exact hx.offersAll hs

/-! ## Frozen schemas -/

/-- A frozen schema offers whatever is registered. -/
theorem offers_freeze (hs : Sound g tag (fun _ => False) s) (target : Ty Authored) {r : Reference}
    (h : Offers s r) : (s.registry.freeze target).offers r = true := by
  cases r with
  | classOf name =>
    obtain ⟨c, hc, hname⟩ := h
    obtain ⟨src, -, hdef⟩ := hs.classes c hc
    refine List.find?_isSome.2 ⟨c, List.mem_mergeSort.2 hc, ?_⟩
    rw [hname, hdef.mode]
    simp
  | enumOf name =>
    obtain ⟨e, he, hname⟩ := h
    refine List.find?_isSome.2 ⟨e, List.mem_mergeSort.2 he, ?_⟩
    rw [hname]
    simp
  | aliasOf name => exact h.elim

theorem offersAll_freeze (hs : Sound g tag (fun _ => False) s) (target : Ty Authored)
    {t : Ty Authored} (h : OffersAll s t) : (s.registry.freeze target).offersAll t = true :=
  Schema.offersAll_iff.2 fun r hr => offers_freeze hs target (h r hr)

/-- The target of a built schema, and every field of a class that it finds, mentions only names that
have definitions. -/
theorem Built.offersAll {root : ShapeId} {target : Ty Authored} (h : Built g root tag s target) :
    (s.registry.freeze target).offersAll target = true ∧
      ∀ c ∈ (s.registry.freeze target).classes, ∀ f ∈ c.fields,
        (s.registry.freeze target).offersAll f.type = true := by
  refine ⟨offersAll_freeze h.sound target (h.target.offersAll h.sound), fun c hc f hf => ?_⟩
  obtain ⟨src, -, hdef⟩ := h.sound.classes c (List.mem_mergeSort.1 hc)
  exact offersAll_freeze h.sound target (hdef.fields.offersAll h.sound f hf)

theorem Built.closed {root : ShapeId} {target : Ty Authored} (h : Built g root tag s target) :
    (s.registry.freeze target).Closed := by
  refine Schema.closed_of_offersAll h.offersAll.2 fun p hp => ?_
  have hnone : (s.registry.freeze target).aliases = [] := h.sound.aliases
  rw [hnone] at hp
  cases hp

end Builder

/-- In a schema without aliases, names that have definitions are found. -/
theorem Schema.finds_of_offersAll {s : Schema} (hs : s.aliases = []) {t : Ty Authored}
    (h : s.offersAll t = true) : s.Finds t := by
  have offered := Schema.offersAll_iff.1 h
  constructor
  · intro name hname mode
    obtain ⟨u, hu, hn⟩ := List.mem_filterMap.1 (List.mem_eraseDups.1 hname)
    cases u with
    | classRef n m d a =>
      cases hn
      exact findClass?_of_complete (offered (.classOf name) ⟨_, hu, rfl⟩) mode
    | aliasRef n m a =>
      have hexpands := offered (.aliasOf n) ⟨_, hu, rfl⟩
      unfold Schema.offers Schema.expand? at hexpands
      rw [hs] at hexpands
      cases hexpands
    | _ => cases hn
  · intro name hname
    obtain ⟨u, hu, hn⟩ := List.mem_filterMap.1 (List.mem_eraseDups.1 hname)
    cases u with
    | enumRef n d a =>
      cases hn
      exact offered (.enumOf name) ⟨_, hu, rfl⟩
    | _ => cases hn

namespace Builder

/-! ## The main result -/

/-- If every cycle of a graph without codecs passes through a struct or an enum, no chain of
pointers is cut short, and building ends: with a problem of the graph, or with a schema in which
every name that the target, a registered field or a derived field mentions is found. -/
theorem buildSchema_closes {g : Graph} {root : ShapeId} (hbelow : g.Below Shape.CodecFree root)
    (hg : g.Guarded root) (tag : String) :
    (∀ id kind inner, g.Reaches root id → g.shape id = .pointer kind inner →
      g.unwrap id = g.unwrap inner) ∧
    ((∃ e, (buildSchema g root tag).1 = .error (.build e)) ∨
      ∃ b, (buildSchema g root tag).1 = .ok b ∧ b.schema.Finds b.schema.target ∧
        (∀ c ∈ b.schema.classes, ∀ f ∈ c.fields, b.schema.Finds f.type) ∧
        ∀ name d, b.schema.findClass? name .partialValue = some d →
          ∀ f ∈ d.fields, b.schema.Finds f.type) := by
  refine ⟨fun id kind inner hid hs => Graph.unwrap_pointer hg hid hs, ?_⟩
  rcases buildSchema_ends hg hbelow tag with ⟨b, hb⟩ | ⟨e, he⟩
  · obtain ⟨t, rfl, built⟩ := built_of_buildSchema hbelow (Prod.ext hb rfl)
    have finds : ∀ u, (Bundle.of _ t tag).schema.offersAll u = true →
        (Bundle.of _ t tag).schema.Finds u :=
      fun u => Schema.finds_of_offersAll built.sound.aliases
    obtain ⟨htarget, hfields⟩ := built.offersAll
    refine .inr ⟨_, hb, finds _ htarget, fun c hc f hf => finds _ (hfields c hc f hf), ?_⟩
    intro name d hd f hf
    exact finds _ (Schema.offersAll_of_findClass? hfields hd f hf)
  · exact .inl ⟨e, he⟩

/-- Trees that refer to trees in a list, behind a pointer, in a variant and in a map written as
pairs. -/
def treeGraph : Graph where
  shapes := #[
    .struct { ident := "Tree" } [
      { name := "value", shape := 1 },
      { name := "children", shape := 2 },
      { name := "parent", shape := 3 },
      { name := "kind", shape := 5 },
      { name := "links", shape := 6, keyRepr := some .pairs }],
    .scalar .i32,
    .list .array 0,
    .option 4,
    .pointer .box 0,
    .enum { ident := "Kind" } none false [
      { name := "Wild" },
      { name := "Grafted", fields := [{ name := "onto", shape := 4 }] }],
    .map .map 7 0,
    .scalar .string]

theorem codecFree_treeGraph : ∀ i, (treeGraph.shape i).CodecFree :=
  Graph.forall_shape (by decide) (by decide)

theorem guarded_treeGraph : treeGraph.Guarded 0 :=
  Graph.guarded_of_descends
    (fun i => if i = 3 then 2 else if i ∈ [2, 4, 6] then 1 else 0) (by decide)

theorem buildSchema_closes_tree : treeGraph.Below Shape.CodecFree 0 ∧ treeGraph.Guarded 0 ∧
    ∃ b, (buildSchema treeGraph 0 "type").1 = .ok b ∧ b.names = [(0, "Tree"), (5, "Kind")] ∧
      b.schema.Finds b.schema.target ∧
      ∀ c ∈ b.schema.classes, ∀ f ∈ c.fields, b.schema.Finds f.type := by
  have hbelow : treeGraph.Below Shape.CodecFree 0 := fun i _ => codecFree_treeGraph i
  obtain ⟨b, hb, hnames⟩ : ∃ b, (buildSchema treeGraph 0 "type").1 = .ok b ∧
      b.names = [(0, "Tree"), (5, "Kind")] := ⟨_, rfl, rfl⟩
  obtain ⟨-, ⟨e, he⟩ | ⟨c, hc, htarget, hfields, -⟩⟩ :=
    buildSchema_closes hbelow guarded_treeGraph "type"
  · rw [hb] at he
    cases he
  · rw [hb] at hc
    cases hc
    exact ⟨hbelow, guarded_treeGraph, b, hb, hnames, htarget, hfields⟩

end Builder

end ShapeSchema
