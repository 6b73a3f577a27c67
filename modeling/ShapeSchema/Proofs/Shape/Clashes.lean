import ShapeSchema.Proofs.Lists
import ShapeSchema.Proofs.Shape.Finished

/-!
# Clashes of class names

Structs and enums receive names of their own, but the names of variant and entry classes are put
together from them without a look at what is taken, and of two classes with one name only the first
is registered. Every struct, variant and entry finds some class under its name
(`hasClass_of_source`); that it is the definition it gives itself holds exactly if those that share
a name give the same definition, and in particular if no two share a name (`finds_own_iff`).
-/

namespace ShapeSchema.Builder

variable {g : Graph} {tag : String} {s : BuildState}

/-! ## A source gives one definition -/

theorem HasType.unique {id : ShapeId} {t t' : Ty Authored} (h : HasType g s id t)
    (h' : HasType g s id t') : t = t' := by
  induction h generalizing t' with
  | declared hd hv =>
    cases h' with
    | declared _ hv' => exact Option.some.inj (hv.symm.trans hv')
    | _ => simp_all [Shape.isDeclared]
  | scalar hs ht =>
    cases h' with
    | scalar hs' ht' =>
      obtain rfl := Shape.scalar.inj (hs.symm.trans hs')
      exact Option.some.inj (ht.symm.trans ht')
    | _ => simp_all [Shape.isDeclared]
  | option hs _ ih =>
    cases h' with
    | option hs' ht' =>
      obtain rfl := Shape.option.inj (hs.symm.trans hs')
      rw [ih ht']
    | _ => simp_all [Shape.isDeclared]
  | list hs _ ih =>
    cases h' with
    | list hs' ht' =>
      obtain ⟨rfl, rfl⟩ := Shape.list.inj (hs.symm.trans hs')
      rw [ih ht']
    | _ => simp_all [Shape.isDeclared]
  | map hs _ _ ih =>
    cases h' with
    | map hs' _ ht' =>
      obtain ⟨rfl, rfl, rfl⟩ := Shape.map.inj (hs.symm.trans hs')
      rw [ih ht']
    | _ => simp_all [Shape.isDeclared]
  | pointer hs _ ih =>
    cases h' with
    | pointer hs' ht' =>
      obtain ⟨rfl, rfl⟩ := Shape.pointer.inj (hs.symm.trans hs')
      exact ih ht'
    | _ => simp_all [Shape.isDeclared]

theorem IntType.unique {repr : IntRepr} {id : ShapeId} {t t' : Ty Authored}
    (h : IntType g repr id t) (h' : IntType g repr id t') : t = t' := by
  induction h generalizing t' with
  | option hs _ ih =>
    cases h' with
    | option hs' ht' =>
      obtain rfl := Shape.option.inj (hs.symm.trans hs')
      rw [ih ht']
    | _ => simp_all
  | list hs _ ih =>
    cases h' with
    | list hs' ht' =>
      obtain ⟨rfl, rfl⟩ := Shape.list.inj (hs.symm.trans hs')
      rw [ih ht']
    | _ => simp_all
  | pointer hs _ ih =>
    cases h' with
    | pointer hs' ht' =>
      obtain ⟨rfl, rfl⟩ := Shape.pointer.inj (hs.symm.trans hs')
      exact ih ht'
    | _ => simp_all
  | scalar hs _ =>
    cases h' with
    | scalar => rfl
    | _ => simp_all

theorem KeyType.unique {repr : KeyRepr} {f : Field} {ctx : FieldContext} {id : ShapeId}
    {t t' : Ty Authored} (h : KeyType g s repr f ctx id t) (h' : KeyType g s repr f ctx id t') :
    t = t' := by
  induction h generalizing t' with
  | option hs _ ih =>
    cases h' with
    | option hs' ht' =>
      obtain rfl := Shape.option.inj (hs.symm.trans hs')
      rw [ih ht']
    | _ => simp_all [Shape.isDeclared]
  | list hs _ ih =>
    cases h' with
    | list hs' ht' =>
      obtain ⟨rfl, rfl⟩ := Shape.list.inj (hs.symm.trans hs')
      rw [ih ht']
    | _ => simp_all [Shape.isDeclared]
  | pointer hs _ ih =>
    cases h' with
    | pointer hs' ht' =>
      obtain ⟨rfl, rfl⟩ := Shape.pointer.inj (hs.symm.trans hs')
      exact ih ht'
    | _ => simp_all [Shape.isDeclared]
  | text hs _ hr ht =>
    cases h' with
    | text hs' _ _ ht' =>
      obtain ⟨rfl, rfl, rfl⟩ := Shape.map.inj (hs.symm.trans hs')
      rw [ht.unique ht']
    | _ => simp_all [Shape.isDeclared]
  | pairs hs _ hr =>
    cases h' with
    | pairs => rfl
    | _ => simp_all [Shape.isDeclared]
  | other hs ht =>
    cases h' with
    | other _ ht' => exact ht.unique ht'
    | _ => simp_all [Shape.isDeclared]

theorem BareType.unique {f : Field} {ctx : FieldContext} {t t' : Ty Authored}
    (h : BareType g s f ctx t) (h' : BareType g s f ctx t') : t = t' := by
  cases h with
  | ints hr ht =>
    cases h' with
    | ints hr' ht' =>
      obtain rfl := Option.some.inj (hr.symm.trans hr')
      exact ht.unique ht'
    | _ => simp_all
  | keyed hr hk ht =>
    cases h' with
    | keyed _ hk' ht' =>
      obtain rfl := Option.some.inj (hk.symm.trans hk')
      exact ht.unique ht'
    | _ => simp_all
  | plain hr hk ht =>
    cases h' with
    | plain _ _ ht' => exact ht.unique ht'
    | _ => simp_all

theorem DefinesFields.unique {owner : String} {v : Option Variant} {fields : List Field}
    {defs defs' : List FieldDef} (h : DefinesFields g s owner v fields defs)
    (h' : DefinesFields g s owner v fields defs') : defs = defs' := by
  have one : ∀ f d d', DefinesField g s owner v f d → DefinesField g s owner v f d' → d = d' := by
    intro f d d' hd hd'
    obtain ⟨t, ht, rfl⟩ := hd.bare
    obtain ⟨t', ht', rfl⟩ := hd'.bare
    rw [ht.unique ht']
  exact List.right_unique_forall₂' one h h'

theorem DefinesClass.unique {src : ClassSource} {defs defs' : List FieldDef}
    (h : DefinesClass g tag s src defs) (h' : DefinesClass g tag s src defs') : defs = defs' := by
  cases h with
  | struct hs hf =>
    cases h' with
    | struct hs' hf' =>
      obtain ⟨rfl, rfl⟩ := Shape.struct.inj (hs.symm.trans hs')
      exact hf.unique hf'
  | variant hs _ hf =>
    cases h' with
    | variant hs' _ hf' =>
      obtain ⟨rfl, rfl, rfl, rfl⟩ := Shape.enum.inj (hs.symm.trans hs')
      rw [hf.unique hf']
  | entry hm hk hx =>
    cases h' with
    | entry hm' hk' hx' =>
      obtain ⟨rfl, rfl, rfl⟩ : _ ∧ _ ∧ _ := by simpa using hm.symm.trans hm'
      rw [hk.unique hk', hx.unique hx']

theorem Defines.unique {src : ClassSource} {c c' : ClassDef} (h : Defines g tag s src c)
    (h' : Defines g tag s src c') : c = c' := by
  rw [h.head, h'.head, h.fields.unique h'.fields]

/-! ## Every source finds a class -/

/-- The class of entries of a field that writes maps as pairs is registered with the field. -/
theorem KeyType.hasClass {repr : KeyRepr} {f : Field} {ctx : FieldContext} {id : ShapeId}
    {t : Ty Authored} (h : KeyType g s repr f ctx id t) (hr : repr = .pairs) :
    ∀ {fuel : Nat}, (g.mapWithin? fuel id).isSome = true → HasClass s (entryClassName ctx).1 := by
  have leave : ∀ {fuel : Nat} {id inner : ShapeId}, (g.shape id = .option inner ∨
      (∃ kind, g.shape id = .list kind inner) ∨ ∃ kind, g.shape id = .pointer kind inner) →
      (g.mapWithin? fuel id).isSome = true →
      ∃ fuel', (g.mapWithin? fuel' inner).isSome = true := by
    intro fuel id inner hs hmap
    cases fuel with
    | zero => cases hmap
    | succ fuel =>
      unfold Graph.mapWithin? at hmap
      rcases hs with hs | ⟨_, hs⟩ | ⟨_, hs⟩ <;> exact ⟨fuel, by rwa [hs] at hmap⟩
  induction h with
  | option hs _ ih =>
    intro fuel hmap
    obtain ⟨fuel', hmap'⟩ := leave (.inl hs) hmap
    exact ih hmap'
  | list hs _ ih =>
    intro fuel hmap
    obtain ⟨fuel', hmap'⟩ := leave (.inr (.inl ⟨_, hs⟩)) hmap
    exact ih hmap'
  | pointer hs _ ih =>
    intro fuel hmap
    obtain ⟨fuel', hmap'⟩ := leave (.inr (.inr ⟨_, hs⟩)) hmap
    exact ih hmap'
  | text _ _ hr' =>
    rw [hr] at hr'
    cases hr'
  | pairs _ _ _ _ _ hc => exact fun _ => hc
  | @other id _ hs _ =>
    intro fuel hmap
    cases fuel with
    | zero => cases hmap
    | succ fuel =>
      unfold Graph.mapWithin? at hmap
      generalize g.shape id = shape at hs hmap
      rcases hs with hs | ⟨_, rfl⟩
      · cases shape with
        | struct | enum => cases hmap
        | _ => cases hs
      · cases hmap

/-- The entry classes of the fields that have definitions are registered. -/
theorem DefinesFields.hasClass {owner : String} {v : Option Variant} {fields : List Field}
    {defs : List FieldDef} (h : DefinesFields g s owner v fields defs) {id : ShapeId}
    {src : ClassSource} (hsrc : src ∈ entrySources g id owner v fields) :
    HasClass s src.className := by
  obtain ⟨f, hf, rfl⟩ := List.mem_map.1 hsrc
  obtain ⟨hmem, hpairs⟩ := List.mem_filter.1 hf
  unfold Graph.writesPairs at hpairs
  simp only [Bool.and_eq_true, Bool.not_eq_true', Option.isNone_iff_eq_none, beq_iff_eq] at hpairs
  obtain ⟨⟨⟨hskip, hint⟩, hkey⟩, hmap⟩ := hpairs
  have hshown : f ∈ fields.filter fun f => !f.skip := List.mem_filter.2 ⟨hmem, by simp [hskip]⟩
  obtain ⟨d, -, hd⟩ := exists_of_forall₂ h.flip hshown
  obtain ⟨t, ht, -⟩ := hd.bare
  cases ht with
  | ints hr => rw [hint] at hr; cases hr
  | plain _ hk => rw [hkey] at hk; cases hk
  | keyed _ hk ht =>
    obtain rfl := Option.some.inj (hkey.symm.trans hk)
    exact ht.hasClass rfl hmap

/-- Once nothing is being walked, every source has a class of its name. -/
theorem hasClass_of_source (hs : Sound g tag (fun _ => False) s) {src : ClassSource}
    (hsrc : src ∈ classSources g s.names) : HasClass s src.className := by
  obtain ⟨⟨id, n⟩, hp, hsrc⟩ := List.mem_flatMap.1 hsrc
  obtain ⟨t, hcomplete⟩ := complete_of_named hs hp
  have hname : ∀ m, Entries.find? s.names id = some m → m = n := by
    intro m hm
    exact Option.some.inj (hm.symm.trans (Entries.find?_eq_some_of_mem hs.names.1 hp))
  unfold sourcesOf at hsrc
  simp only at hsrc hcomplete
  cases hcomplete with
  | struct hshape hfind hclass hdefs =>
    obtain rfl := hname _ hfind
    rw [hshape] at hsrc
    rcases List.mem_cons.1 hsrc with rfl | hsrc
    · exact hclass
    · exact hdefs.hasClass hsrc
  | variants hshape hdata hfind hvariants =>
    obtain rfl := hname _ hfind
    rw [hshape] at hsrc
    simp only [hdata, if_true] at hsrc
    obtain ⟨v, hv, hsrc⟩ := List.mem_flatMap.1 hsrc
    obtain ⟨hclass, -, defs, hdefs⟩ := hvariants v hv
    rcases List.mem_cons.1 hsrc with rfl | hsrc
    · exact hclass
    · exact hdefs.hasClass hsrc
  | texts hshape hdata | enumRef hshape hdata =>
    rw [hshape] at hsrc
    simp [hdata] at hsrc

/-- The class that a source finds is the definition of a source of that name. -/
theorem finds_of_source (target : Ty Authored) (hs : Sound g tag (fun _ => False) s)
    {src : ClassSource} (hsrc : src ∈ classSources g s.names) :
    ∃ c, (s.registry.freeze target).findClass? src.className .complete = some c ∧
      ∃ other ∈ classSources g s.names, other.className = src.className ∧
        Defines g tag s other c := by
  obtain ⟨c₀, hc₀, hname₀⟩ := hasClass_of_source hs hsrc
  obtain ⟨src₀, -, hdef₀⟩ := hs.classes c₀ hc₀
  have hsome : ((s.registry.freeze target).findClass? src.className .complete).isSome = true := by
    refine List.find?_isSome.2 ⟨c₀, List.mem_mergeSort.2 hc₀, ?_⟩
    rw [hname₀, hdef₀.mode]
    simp
  obtain ⟨c, hc⟩ := Option.isSome_iff_exists.1 hsome
  have hmem : c ∈ s.registry.classes := List.mem_mergeSort.1 (List.mem_of_find?_eq_some hc)
  obtain ⟨other, hother, hdef⟩ := hs.classes c hmem
  have hname := List.find?_some hc
  simp only [Bool.and_eq_true, beq_iff_eq] at hname
  exact ⟨c, hc, other, hother, hdef.name.symm.trans hname.1, hdef⟩

/-! ## Top theorem -/

/-- Names of structs and enums are distinct. Every struct, variant and entry class finds its own
definition under its name if and only if those that share a name give the same definition, so in
particular if all their names are distinct. -/
theorem finds_own_iff {root : ShapeId} {b : Bundle} (hfree : g.Below Shape.CodecFree root)
    (hb : buildSchema g root tag = (.ok b, s)) :
    (b.names.map Prod.snd).Nodup ∧
    ((∀ src ∈ classSources g b.names, ∃ c,
        b.schema.findClass? src.className .complete = some c ∧ Defines g tag s src c) ↔
      ∀ src ∈ classSources g b.names, ∀ other ∈ classSources g b.names,
        src.className = other.className → ∃ c, Defines g tag s src c ∧ Defines g tag s other c) ∧
    (DistinctClasses g b.names → ∀ src ∈ classSources g b.names, ∃ c,
      b.schema.findClass? src.className .complete = some c ∧ Defines g tag s src c) := by
  obtain ⟨target, rfl, built⟩ := built_of_buildSchema hfree hb
  have hs := built.sound
  refine ⟨hs.names.2, ⟨fun h src hsrc other hother hname => ?_, fun h src hsrc => ?_⟩,
    fun h src hsrc => ?_⟩
  · obtain ⟨c, hc, hdef⟩ := h src hsrc
    obtain ⟨c', hc', hdef'⟩ := h other hother
    rw [hname, hc'] at hc
    obtain rfl := Option.some.inj hc
    exact ⟨c', hdef, hdef'⟩
  · obtain ⟨c, hc, other, hother, hname, hdef⟩ := finds_of_source target hs hsrc
    obtain ⟨c', hdef', hother'⟩ := h src hsrc other hother hname.symm
    rw [hdef.unique hother'] at hc
    exact ⟨c', hc, hdef'⟩
  · obtain ⟨c, hc, other, hother, hname, hdef⟩ := finds_of_source target hs hsrc
    obtain rfl := source_unique h hother hsrc hname
    exact ⟨c, hc, hdef⟩

/-- The classes of trees, of their variants and of their links have names of their own. -/
theorem finds_own_tree : treeGraph.Below Shape.CodecFree 0 ∧ ∃ b s,
    buildSchema treeGraph 0 "type" = (.ok b, s) ∧
    (classSources treeGraph b.names).map ClassSource.className =
      ["Tree", "Tree::links__Entry", "Kind__Wild", "Kind__Grafted"] ∧
    ∀ src ∈ classSources treeGraph b.names, ∃ c,
      b.schema.findClass? src.className .complete = some c ∧
        Defines treeGraph "type" s src c := by
  have hbelow : treeGraph.Below Shape.CodecFree 0 := fun i _ => codecFree_treeGraph i
  obtain ⟨b, s, hb, hnames⟩ : ∃ b s, buildSchema treeGraph 0 "type" = (.ok b, s) ∧
      (classSources treeGraph b.names).map ClassSource.className =
        ["Tree", "Tree::links__Entry", "Kind__Wild", "Kind__Grafted"] := ⟨_, _, rfl, rfl⟩
  have hdistinct : DistinctClasses treeGraph b.names := by
    unfold DistinctClasses
    rw [hnames]
    decide
  exact ⟨hbelow, b, s, hb, hnames, (finds_own_iff hbelow hb).2.2 hdistinct⟩

/-- An enum with a variant whose class has the name of a struct. -/
def clashGraph : Graph where
  shapes := #[
    .struct { ident := "Root" } [
      { name := "e", shape := 1 },
      { name := "s", shape := 3 }],
    .enum { ident := "A" } none false [
      { name := "B", fields := [{ name := "x", shape := 2 }] },
      { name := "C", fields := [{ name := "z", shape := 2 }] }],
    .scalar .i32,
    .struct { ident := "A__B" } [{ name := "y", shape := 4 }],
    .scalar .string]

/-- The class registered under the name that the struct shares with the variant has the tag and the
field of the variant. -/
theorem length_of_clash : ∀ c ∈ (buildSchema clashGraph 0 "type").2.registry.classes,
    c.name.real = "A__B" → c.fields.length = 2 := by
  decide

/-- The struct does not find its own class, but that of the variant. -/
theorem finds_own_fails : clashGraph.Below Shape.CodecFree 0 ∧ ∃ b s,
    buildSchema clashGraph 0 "type" = (.ok b, s) ∧
    .struct 3 "A__B" ∈ classSources clashGraph b.names ∧
    ¬ ∃ c, b.schema.findClass? "A__B" .complete = some c ∧
      Defines clashGraph "type" s (.struct 3 "A__B") c := by
  have hfree : clashGraph.Below Shape.CodecFree 0 := fun i _ =>
    Graph.forall_shape (by decide) (by decide) i
  refine ⟨hfree, _, _, rfl, List.mem_of_getElem? (i := 3) rfl, ?_⟩
  rintro ⟨c, hc, hdef⟩
  have hmem := List.mem_mergeSort.1 (List.mem_of_find?_eq_some hc)
  have hname := List.find?_some hc
  simp only [Bool.and_eq_true, beq_iff_eq] at hname
  have hlen := length_of_clash c hmem hname.1
  cases hdef.fields with
  | struct hs hf =>
    cases hs
    have := hf.length_eq
    simp at this
    omega

end ShapeSchema.Builder
