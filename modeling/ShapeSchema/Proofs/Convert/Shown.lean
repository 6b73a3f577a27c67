import ShapeSchema.Proofs.Convert.Written

/-!
# Answers under shown names

A prompt shows the rendered names of fields and variants, so that an answer comes back under these.
Coercion looks for real names first and for rendered ones second. It reads an answer back as it was
written (`run_of_shown`) if no rendered name is the real name of another field or variant beside it;
where two fields have swapped their names, it does not (`run_of_shown_fails`).
-/

namespace ShapeSchema

/-! ## The spelling that a prompt shows -/

/-- The fields of the struct or variant that a class stands for. -/
def ClassSource.fields (g : Graph) : ClassSource → List Field
  | .struct id _ =>
    match g.shape id with
    | .struct _ fields => fields
    | _ => []
  | .variant _ _ v => v.fields
  | .entry _ _ _ _ => []

/-- The key that shows a field of a class. -/
def shownKey (g : Graph) (names : List (ShapeId × String)) (name key : String) : String :=
  match (classSources g names).find? fun src => src.className == name with
  | some src => ((src.fields g).find? fun f => f.name == key).elim key Field.rendered
  | none => key

/-- The text that shows a variant of an enum. -/
def shownText? (g : Graph) (names : List (ShapeId × String)) (name variant : String) :
    Option String :=
  match names.find? fun p => p.2 == name with
  | none => none
  | some p =>
    match g.shape p.1 with
    | .enum _ _ _ vs => (vs.find? fun v => v.name == variant).map Variant.rendered
    | _ => none

/-- Fields under their rendered names, variants as the texts of theirs. -/
def Spelling.shown (g : Graph) (names : List (ShapeId × String)) : Spelling where
  field := shownKey g names
  text? := shownText? g names
  free := [.stringToEnum]

/-! ## Shapes whose rendered names lead back -/

/-- The fields that are shown have rendered names of their own, none of which is the real name of
another. -/
structure FieldsApart (fields : List Field) : Prop where
  nodup : ((fields.filter fun f => !f.skip).map (·.rendered)).Nodup
  apart : ∀ f ∈ fields, ∀ other ∈ fields, f.skip = false → other.skip = false →
    f.rendered = other.name → f.name = other.name

instance (fields : List Field) : Decidable (FieldsApart fields) :=
  decidable_of_iff (((fields.filter fun f => !f.skip).map (·.rendered)).Nodup ∧
      ∀ f ∈ fields, ∀ other ∈ fields, f.skip = false → other.skip = false →
        f.rendered = other.name → f.name = other.name)
    ⟨fun h => ⟨h.1, h.2⟩, fun h => ⟨h.nodup, h.apart⟩⟩

/-- No variant has the real name of another one as its rendered name. Variants with fields are told
by their tags, though, and those of an enum that is a union by themselves. -/
def Shape.VariantsApart : Shape → Prop
  | .enum _ _ false vs => isDataEnum vs = false →
    ∀ v ∈ vs, ∀ other ∈ vs, v.rendered = other.name → v.name = other.name
  | _ => True

/-- A plain shape whose fields and variants can be told by their rendered names. -/
structure Shape.Apart (s : Shape) : Prop where
  plain : s.Plain
  fields : ∀ fs ∈ s.fieldGroups, FieldsApart fs
  variants : s.VariantsApart

namespace Converter

open Builder

section
variable {g : Graph} {names : List (ShapeId × String)}

theorem shownKey_of_source (hd : DistinctClasses g names) {src : ClassSource}
    (hsrc : src ∈ classSources g names) (key : String) :
    shownKey g names src.className key =
      ((src.fields g).find? fun f => f.name == key).elim key Field.rendered := by
  unfold shownKey
  cases hfind : (classSources g names).find? fun other => other.className == src.className with
  | none =>
    have := List.find?_eq_none.1 hfind src hsrc
    simp at this
  | some other =>
    have hname : other.className = src.className := by simpa using List.find?_some hfind
    rw [source_unique hd (List.mem_of_find?_eq_some hfind) hsrc hname]

theorem shown_of_ne {real shown : String} (h : shown ≠ real) :
    (Name.of real shown).shown = some shown := by
  simp [Name.of, h]

/-- Fields are found under their rendered names if these stand apart. -/
theorem tells_rendered {key : String → String} {fields : List Field} (h : FieldsApart fields)
    (hkey : ∀ f ∈ fields, key f.name = f.rendered) : Spelling.Tells key (fieldNames fields) := by
  have mem_shown : ∀ n ∈ fieldNames fields, ∃ f ∈ fields, f.skip = false ∧
      n = .of f.name f.rendered := by
    intro n hn
    obtain ⟨f, hf, rfl⟩ := List.mem_map.1 hn
    obtain ⟨hmem, hskip⟩ := List.mem_filter.1 hf
    exact ⟨f, hmem, by simpa using hskip, rfl⟩
  refine ⟨?_, fun n hn => ?_⟩
  · have : (fieldNames fields).map (fun n => key n.real) =
        (fields.filter fun f => !f.skip).map (·.rendered) := by
      unfold fieldNames
      rw [List.map_map]
      exact List.map_congr_left fun f hf => hkey f (List.mem_filter.1 hf).1
    rw [this]
    exact h.nodup
  · obtain ⟨f, hf, hskip, rfl⟩ := mem_shown n hn
    show key f.name = f.name ∨ _
    rw [hkey f hf]
    by_cases hreal : f.rendered = f.name
    · exact .inl hreal
    · refine .inr ⟨?_, fun m hm he => ?_⟩
      · rw [shown_of_ne hreal]
        exact congrArg some (hkey f hf).symm
      · obtain ⟨other, hother, hskip', rfl⟩ := mem_shown m hm
        have hclash : other.rendered = f.name := (hkey other hother).symm.trans he
        have hname := h.apart other hother f hf hskip' hskip hclash
        have hsame : other.rendered = f.rendered := by
          rw [← hkey other hother, ← hkey f hf]
          exact congrArg key hname
        exact hreal (hsame.symm.trans hclash)

/-- The tag of a variant does not get in the way. -/
theorem tells_tagged {key : String → String} {fields : List Field} {tag : String}
    (h : Spelling.Tells key (fieldNames fields)) (hfree : TagFree tag fields)
    (hkey : ∀ f ∈ fields, key f.name = f.rendered) (htag : key tag = tag) :
    Spelling.Tells key (⟨tag, none⟩ :: fieldNames fields) := by
  have other : ∀ n ∈ fieldNames fields, key n.real ≠ tag ∧ n.real ≠ tag := by
    intro n hn
    obtain ⟨f, hf, rfl⟩ := List.mem_map.1 hn
    have hmem := (List.mem_filter.1 hf).1
    show key f.name ≠ tag ∧ f.name ≠ tag
    rw [hkey f hmem]
    exact (hfree f hmem).symm
  refine ⟨?_, fun n hn => ?_⟩
  · rw [List.map_cons, List.nodup_cons, htag]
    refine ⟨fun hmem => ?_, h.nodup⟩
    obtain ⟨n, hn, he⟩ := List.mem_map.1 hmem
    exact (other n hn).1 he
  · rcases List.mem_cons.1 hn with rfl | hn
    · exact .inl htag
    · refine (h.finds n hn).imp_right fun ⟨hshown, hnone⟩ => ⟨hshown, fun m hm => ?_⟩
      rcases List.mem_cons.1 hm with rfl | hm
      · rw [htag]
        exact (other n hn).2.symm
      · exact hnone m hm

/-- An enum finds a variant by its rendered name. -/
theorem findValue?_rendered {n : String} {d : Declared} {vs : List Variant} {cs : List Constraint}
    (nd : (vs.map (·.rendered)).Nodup)
    (h : ∀ v ∈ vs, ∀ other ∈ vs, v.rendered = other.name → v.name = other.name) {x : Variant}
    (hx : x ∈ vs) :
    ∃ y, (enumDef n d vs cs).findValue? x.rendered = some y ∧ y.name.real = x.name := by
  rw [findValue?_enumDef, Variant.known?]
  cases hreal : vs.find? fun y => y.name == x.rendered with
  | some y =>
    have hname : y.name = x.rendered := by simpa using List.find?_some hreal
    exact ⟨_, rfl, (h x hx y (List.mem_of_find?_eq_some hreal) hname.symm).symm⟩
  | none =>
    rw [Option.none_or, find?_of_nodup_map nd hx]
    exact ⟨_, rfl, rfl⟩

theorem shownText?_of_enum (hnames : (names.map Prod.snd).Nodup) {id : ShapeId} {n : String}
    (hn : Entries.find? names id = some n) {d : Declared} {own : Option String} {u : Bool}
    {vs : List Variant} (hshape : g.shape id = .enum d own u vs) {x : Variant}
    (hx : vs.find? (fun y => y.name == x.name) = some x) :
    shownText? g names n x.name = some x.rendered := by
  have hmem := Entries.mem_of_find?_eq_some hn
  unfold shownText?
  cases hfind : names.find? fun p => p.2 == n with
  | none =>
    have := List.find?_eq_none.1 hfind _ hmem
    simp at this
  | some p =>
    have hname : p.2 = n := by simpa using List.find?_some hfind
    obtain rfl := List.inj_on_of_nodup_map hnames (List.mem_of_find?_eq_some hfind) hmem hname
    simp only [hshape, hx, Option.map_some]

/-- Shapes whose names stand apart can be told in what a prompt shows. -/
theorem legible_shown (tag : String) (hd : DistinctClasses g names)
    (hnames : (names.map Prod.snd).Nodup) :
    Legible (.shown g names) Shape.Apart g tag names where
  plain h := h.plain
  struct := by
    intro id n d fields hp hshape hsrc
    have hgroup : fields ∈ (g.shape id).fieldGroups := by
      rw [hshape]
      exact List.mem_cons_self
    refine tells_rendered (hp.fields fields hgroup) fun f hf => ?_
    show shownKey g names (ClassSource.struct id n).className f.name = _
    rw [shownKey_of_source hd hsrc]
    simp only [ClassSource.fields, hshape]
    rw [find?_of_nodup_map (hp.plain.fields fields hgroup) hf]
    rfl
  variant := by
    intro id n d own u vs x hp hshape hsrc hx hfree
    have hgroup : x.fields ∈ (g.shape id).fieldGroups := by
      rw [hshape]
      exact List.mem_map_of_mem hx
    have shown (key : String) : (Spelling.shown g names).field (variantClassName n x) key =
        (x.fields.find? fun f => f.name == key).elim key Field.rendered :=
      shownKey_of_source hd hsrc key
    have hkey : ∀ f ∈ x.fields,
        (Spelling.shown g names).field (variantClassName n x) f.name = f.rendered := by
      intro f hf
      rw [shown, find?_of_nodup_map (hp.plain.fields x.fields hgroup) hf]
      rfl
    refine tells_tagged (tells_rendered (hp.fields x.fields hgroup) hkey) hfree hkey ?_
    rw [shown, List.find?_eq_none.2 fun f hf => by simpa using (hfree f hf).1]
    rfl
  entry := by
    intro id owner v f hsrc
    have hkey (key : String) :
        (Spelling.shown g names).field (entryClassName (ownerContext owner v f)).1 key = key :=
      shownKey_of_source hd hsrc key
    exact ⟨by simp [hkey], fun n _ => .inl (hkey n.real)⟩
  enumOf cs hp hshape hdata hn hx := by
    show ∃ y, EnumDef.findValue? _ ((shownText? g names _ _).getD _) = _ ∧ _
    rw [shownText?_of_enum hnames hn hshape hx]
    have hvs := hp.plain.variants
    have happart := hp.variants
    rw [hshape] at hvs happart
    exact findValue?_rendered hvs (happart hdata) (List.mem_of_find?_eq_some hx)
  texts _ := List.mem_singleton.2 rfl

end

/-! ## Top theorem -/

/-- Values of a shape are written if the keys that fields write as texts have texts. What is written
comes back from its spelling under rendered names, if these stand apart. -/
theorem run_of_shown {g : Graph} {tag : String} {root : ShapeId} {b : Bundle} {s : BuildState}
    (hb : buildSchema g root tag = (.ok b, s)) (hapart : g.Below Shape.Apart root)
    (hclasses : DistinctClasses g b.names) (v : Native) (path : Path) :
    (g.Below (Shape.KeysSpoken g) root → OfShape g tag root v →
      ∃ w, (Converter.mk g b.nameTable).write root v path = .ok w) ∧
    ∀ w, (Converter.mk g b.nameTable).write root v path = .ok w → ∀ eval here, ∃ n,
      ((Coercer.mk b.schema eval .quiet).run ((Spelling.shown g b.names).spell w) b.schema.target
        here).result = .ok (w, n) ∧
      n.explanations = [] ∧ ∀ f ∈ n.flags, f.kind = .unionMember ∨ f.kind = .stringToEnum := by
  have hfree : g.Below Shape.CodecFree root := fun i hi => (hapart i hi).plain.codecFree
  refine ⟨fun hkeys hv => ?_, fun w hw eval here => ?_⟩
  · exact write_of_spoken hb hfree hkeys hclasses hv path
  obtain ⟨target, rfl, hsound, htarget⟩ := built_of_buildSchema hfree hb
  let c : Coercer := ⟨s.registry.freeze target, eval, .quiet⟩
  have hset : Setting g tag s c (.shown g s.names) Shape.Apart :=
    ⟨rfl, ⟨target, rfl⟩, hsound, hclasses, legible_shown tag hclasses hsound.names.2⟩
  have hfits : c.Fits (.shown g s.names) w target := (accepted hset v).1 hapart htarget hw
  obtain ⟨n, hn, calm⟩ := hfits.coerce rfl c.schema.aliasNames here
  exact ⟨n, hn, calm.1, fun f hf => by simpa [Spelling.shown] using calm.2 f hf⟩

/-- What a prompt shows of the person. -/
def shownPerson : Value := .classOf "Person" [
  ("fullName", .text "Ada"),
  ("role", .classOf "Role__Member" [("type", .text "Member"), ("since", .int 1835)]),
  ("quota", .null)]

theorem run_of_shown_person : ∃ b s n,
    buildSchema personGraph 0 "type" = (.ok b, s) ∧ personGraph.Below Shape.Apart 0 ∧
    DistinctClasses personGraph b.names ∧
    (Converter.mk personGraph b.nameTable).write 0 person {} = .ok writtenPerson ∧
    (Spelling.shown personGraph b.names).spell writtenPerson = shownPerson ∧
    ((Coercer.mk b.schema (fun _ _ => .ok true) .quiet).run shownPerson b.schema.target {}).result
      = .ok (writtenPerson, n) := by
  have hb : ∃ b s, buildSchema personGraph 0 "type" = (.ok b, s) ∧
      b.nameTable = ⟨[(0, "Person"), (2, "Role")], "type"⟩ := ⟨_, _, rfl, rfl⟩
  obtain ⟨b, s, hb, hnames⟩ := hb
  have hapart : personGraph.Below Shape.Apart 0 := fun i _ => {
    plain := plain_personGraph i
    fields := Graph.forall_shape (P := fun x => ∀ fs ∈ x.fieldGroups, FieldsApart fs)
      (by decide) (by decide) i
    variants := Graph.forall_shape
      (by simp [personGraph, Shape.VariantsApart, isDataEnum]) trivial i }
  have hclasses : DistinctClasses personGraph b.nameTable.names := by
    rw [hnames]
    unfold DistinctClasses
    decide
  have hw := write_person b.nameTable hnames
  have hspell : (Spelling.shown personGraph b.nameTable.names).spell writtenPerson =
      shownPerson := by
    rw [hnames]
    rfl
  obtain ⟨n, hn, -⟩ :=
    (run_of_shown hb hapart hclasses person {}).2 _ hw (fun _ _ => .ok true) {}
  rw [show (Spelling.shown personGraph b.names).spell writtenPerson = shownPerson from hspell] at hn
  exact ⟨b, s, n, hb, hapart, hclasses, hw, hspell, hn⟩

/-- Two fields and two variants that have swapped their names. -/
def swapGraph : Graph where
  shapes := #[
    .struct { ident := "Swap" } [
      { name := "left", shape := 1, rename := some "right" },
      { name := "right", shape := 1, rename := some "left" },
      { name := "color", shape := 2 }],
    .scalar .i64,
    .enum { ident := "Color" } none false [
      { name := "Red", rename := some "Blue" },
      { name := "Blue", rename := some "Red" }]]

def swap : Native := .object [("left", .big 1), ("right", .big 2), ("color", .text "Red")]

/-- What is written with left and right and the colors one way or the other. -/
def writtenSwap (left right : Int) (color : String) : Value := .classOf "Swap" [
  ("left", .int left), ("right", .int right), ("color", .enumOf "Color" color)]

theorem plain_swapGraph : ∀ i, (swapGraph.shape i).Plain :=
  Graph.forall_shape (by decide) (by decide)

theorem renderedApart_swapGraph :
    ∀ i, ∀ fs ∈ (swapGraph.shape i).fieldGroups, (fs.map (·.rendered)).Nodup :=
  Graph.forall_shape (P := fun x => ∀ fs ∈ x.fieldGroups, (fs.map (·.rendered)).Nodup)
    (by decide) (by decide)

theorem ofShape_swap : OfShape swapGraph "type" 0 swap := by
  refine .struct rfl (.refl _) ?_ ?_
  · intro f hf y hy
    simp only [List.mem_cons, List.not_mem_nil, or_false] at hf
    rcases hf with rfl | rfl | rfl <;> cases hy
    · exact .scalar rfl ⟨1, rfl, rfl⟩
    · exact .scalar rfl ⟨2, rfl, rfl⟩
    · exact .text (x := { name := "Red", rename := some "Blue" }) rfl rfl List.mem_cons_self
  · intro f hf y _ hr
    simp only [List.mem_cons, List.not_mem_nil, or_false] at hf
    rcases hf with rfl | rfl | rfl <;> cases hr

theorem write_swap (names : NameTable) (hnames : names = ⟨[(0, "Swap"), (2, "Color")], "type"⟩) :
    (Converter.mk swapGraph names).write 0 swap {} = .ok (writtenSwap 1 2 "Red") := by
  subst hnames
  refine (write_struct_ok rfl).2 ⟨_, [("left", _), ("right", _), ("color", _)], rfl, ?_, rfl⟩
  refine .cons ⟨rfl, ?_⟩ (.cons ⟨rfl, ?_⟩ (.cons ⟨rfl, ?_⟩ .nil))
  · rw [writeField_plain ⟨rfl, rfl, rfl⟩, write_scalar (s := .i64) rfl]
    rfl
  · rw [writeField_plain ⟨rfl, rfl, rfl⟩, write_scalar (s := .i64) rfl]
    rfl
  · rw [writeField_plain ⟨rfl, rfl, rfl⟩]
    exact (write_texts_ok rfl rfl).2 ⟨_, rfl, rfl⟩

def swapClass : ClassDef where
  name := ⟨"Swap", none⟩
  fields := [
    ⟨⟨"left", some "right"⟩, .prim .int {}, none, false⟩,
    ⟨⟨"right", some "left"⟩, .prim .int {}, none, false⟩,
    ⟨⟨"color", none⟩, .enumRef "Color" false {}, none, false⟩]

def colorEnum : EnumDef where
  name := ⟨"Color", none⟩
  values := [⟨⟨"Red", some "Blue"⟩, none⟩, ⟨⟨"Blue", some "Red"⟩, none⟩]

theorem built_swap : ∃ b s, buildSchema swapGraph 0 "type" = (.ok b, s) ∧
    b.nameTable = ⟨[(0, "Swap"), (2, "Color")], "type"⟩ ∧
    b.schema.target = .classRef "Swap" .complete false {} ∧
    b.schema.findClass? "Swap" .complete = some swapClass ∧
    b.schema.findEnum? "Color" = some colorEnum := by
  refine ⟨_, _, rfl, rfl, rfl, ?_, ?_⟩
  · show (List.mergeSort [swapClass] _).find? _ = _
    rw [List.mergeSort_singleton]
    rfl
  · show (List.mergeSort [colorEnum] _).find? _ = _
    rw [List.mergeSort_singleton]
    rfl

/-- All fields and variants have names of their own, real ones and rendered ones, but what is
written comes back with left and right and the colors exchanged. -/
theorem run_of_shown_fails : ∃ b s n, buildSchema swapGraph 0 "type" = (.ok b, s) ∧
    swapGraph.Below Shape.Plain 0 ∧
    (∀ i, ∀ fs ∈ (swapGraph.shape i).fieldGroups, (fs.map (·.rendered)).Nodup) ∧
    DistinctClasses swapGraph b.names ∧ OfShape swapGraph "type" 0 swap ∧
    (Converter.mk swapGraph b.nameTable).write 0 swap {} = .ok (writtenSwap 1 2 "Red") ∧
    ((Coercer.mk b.schema (fun _ _ => .ok true) .quiet).run
      ((Spelling.shown swapGraph b.names).spell (writtenSwap 1 2 "Red")) b.schema.target
      {}).result = .ok (writtenSwap 2 1 "Blue", n) ∧
    writtenSwap 2 1 "Blue" ≠ writtenSwap 1 2 "Red" := by
  obtain ⟨b, s, hb, hnames, htarget, hclass, henum⟩ := built_swap
  have hspell : (Spelling.shown swapGraph b.nameTable.names).spell (writtenSwap 1 2 "Red") =
      .classOf "Swap" [("right", .int 1), ("left", .int 2), ("color", .text "Blue")] := by
    rw [hnames]
    rfl
  have hrun : ((Coercer.mk b.schema (fun _ _ => .ok true) .quiet).run (.classOf "Swap"
      [("right", .int 1), ("left", .int 2), ("color", .text "Blue")]) b.schema.target {}).result =
      .ok (writtenSwap 2 1 "Blue",
        { flags := [⟨.stringToEnum, (Path.root.field "color").text, some "Blue"⟩] }) := by
    simp [Coercer.run, htarget, Coercer.coerce, Coercer.coerceForm, hclass, swapClass,
      Value.entries?, Name.lookup?, Entries.find?, Coercer.coercePrim, Coercer.coerceEnum, henum,
      EnumDef.findValue?, colorEnum, Coercer.ownConstraints]
    rfl
  rw [← hspell] at hrun
  refine ⟨b, s, _, hb, fun i _ => plain_swapGraph i, renderedApart_swapGraph, ?_, ofShape_swap,
    write_swap b.nameTable hnames, hrun, ?_⟩
  · show DistinctClasses swapGraph b.nameTable.names
    rw [hnames]
    unfold DistinctClasses
    decide
  · simp [writtenSwap]

end Converter

end ShapeSchema
