import ShapeSchema.Convert.Parse
import ShapeSchema.Proofs.Convert.Yielded

/-!
# What is read can be parsed

Parsing coerces a value before it reads it. What the reader reads from a value itself, parsing
answers too, if the value uses the names that the schema knows (`parse_of_read`). The reader knows
more names, and parsing refuses those, or takes them for others (`Disagrees`).
-/

namespace ShapeSchema

namespace Parser

open Builder Converter

/-- A parsed value is read from what coercion has made of the input. -/
theorem read_of_parse {p : Parser} {v : Value} {q : Parsed} {notes : Notes}
    (h : (p.parse v).result = .ok (q, notes)) : ∃ w m,
      (p.coercer.run v p.bundle.schema.target .root).result = .ok (w, m) ∧
      p.converter.read p.shape w .root = .ok q.native := by
  unfold parse at h
  simp only at h
  split at h
  · cases h
  next w m hrun =>
  refine ⟨w, m, hrun, ?_⟩
  unfold conclude at h
  simp only at h
  split at h
  · cases h
  obtain ⟨_, _, _, -, h, -⟩ := Checked.ok_bind.1 h
  split at h
  · cases h
  next n hn =>
  obtain ⟨rfl, -⟩ := Checked.ok_pure.1 h
  exact hn

/-- Parsing answers what is read from what coercion makes without judging a constraint. -/
theorem parse_of_run {p : Parser} {v w : Value} {n : Native}
    (hrun : (p.coercer.run v p.bundle.schema.target .root).Passes w)
    (hread : p.converter.read p.shape w .root = .ok n) :
    ∃ q notes, (p.parse v).result = .ok (q, notes) ∧ q.native = n := by
  obtain ⟨m, hm, hchecks, hasserts⟩ := hrun
  refine ⟨⟨n, w, m.flags, m.checks, m.explanations⟩, {}, ?_, rfl⟩
  unfold parse
  simp only [hm]
  unfold conclude reportFailedChecks
  rw [hasserts, hchecks, hread]
  rfl

/-- A value that is read at a shape is parsed to the same native data, if it gives the names of
fields, tags and variants as the schema knows them. -/
theorem parse_of_read {g : Graph} {tag : String} {root : ShapeId} {b : Bundle} {s : BuildState}
    (hb : buildSchema g root tag = (.ok b, s)) (hshapes : g.Below Shape.Unadorned root)
    (hclasses : DistinctClasses g b.names) {v : Value}
    (hnamed : WellNamed g b.tagField none root v) {n : Native}
    (hread : (Converter.mk g b.nameTable).read root v .root = .ok n) (eval : Evaluator)
    (sink : Sink) :
    ∃ q notes, (Parser.parse ⟨g, b, root, eval, sink⟩ v).result = .ok (q, notes) ∧
      q.native = n := by
  have hrules := rulesKept_of_buildSchema hb
  obtain ⟨target, rfl, hsound, htarget⟩ :=
    built_of_buildSchema (fun i hi => (hshapes i hi).codecFree) hb
  let p : Parser := ⟨g, .of s target tag, root, eval, sink⟩
  have hag : Agrees p.converter p.coercer s := ⟨⟨target, rfl⟩, hsound, hclasses, hrules⟩
  obtain ⟨w, htakes, hw⟩ := (yields hag v).1 hshapes htarget hnamed hread
  exact parse_of_run (p := p) (htakes.coerce _ .root) hw

/-! ## Names that only the reader knows -/

/-- A value of a graph without codecs and constraints is read, but parsing does not answer the same
data. -/
def Disagrees (g : Graph) (v : Value) : Prop :=
  ∃ b s n, buildSchema g 0 "type" = (.ok b, s) ∧ g.Below Shape.CodecFree 0 ∧
    g.Below Shape.Unruled 0 ∧ DistinctClasses g b.names ∧
    (Converter.mk g b.nameTable).read 0 v .root = .ok n ∧ ∀ q notes,
      (Parser.parse ⟨g, b, 0, fun _ _ => .ok true, .quiet⟩ v).result = .ok (q, notes) →
      q.native ≠ n

/-- A variant that is shown under another name, as its field is. -/
def square : Variant where
  name := "Square"
  rename := some "square"
  fields := [{ name := "side", shape := 1, rename := some "edge" }]

def figureGraph : Graph where
  shapes := #[
    .enum { ident := "Figure" } (some "kind") false [
      { name := "Circle", fields := [{ name := "radius", shape := 1 }] }, square],
    .scalar .f64]

/-- A square that is named in some way. -/
def figure (name : String) : Value := .map [("kind", .text name), ("edge", .int 3)]

theorem read_figure (names : NameTable) {name : String} (h : name = "Square" ∨ name = "square") :
    (Converter.mk figureGraph names).read 0 (figure name) .root =
      .ok (.record [("kind", .text "Square"), ("side", .ofInt 3)]) := by
  refine (read_data_ok rfl rfl).2 ⟨_, .text name, square, [("side", .ofInt 3)], rfl, rfl, ?_,
    .cons ⟨rfl, .found rfl rfl (fun _ => rfl) ?_⟩ .nil, rfl⟩
  · rcases h with rfl | rfl <;> rfl
  · rw [readField_plain ⟨rfl, rfl, rfl⟩ rfl]
    exact read_scalar rfl rfl

theorem unadorned_figureGraph : ∀ i, (figureGraph.shape i).Unadorned :=
  Graph.forall_shape (by decide) (by decide)

theorem built_figure : ∃ b s, buildSchema figureGraph 0 "type" = (.ok b, s) ∧
    b.names = [(0, "Figure")] ∧ b.tagField = "type" ∧
    b.schema.target = .union [.classRef "Figure__Circle" .complete false {},
      .classRef "Figure__Square" .complete false {}] none {} ∧
    b.schema.findClass? "Figure__Circle" .complete =
      some { name := ⟨"Figure__Circle", some "Figure_Circle"⟩, fields := [
        ⟨⟨"kind", none⟩, .literal (.string "Circle") {}, none, false⟩,
        ⟨⟨"radius", none⟩, .prim .float {}, none, false⟩] } ∧
    b.schema.findClass? "Figure__Square" .complete =
      some { name := ⟨"Figure__Square", some "Figure_square"⟩, fields := [
        ⟨⟨"kind", none⟩, .literal (.string "square") {}, none, false⟩,
        ⟨⟨"side", some "edge"⟩, .prim .float {}, none, false⟩] } := by
  refine ⟨_, _, rfl, rfl, rfl, rfl, ?_, ?_⟩
  · show (List.mergeSort [_, _] _).find? _ = _
    rw [List.mergeSort_of_pairwise (by decide)]
    rfl
  · show (List.mergeSort [_, _] _).find? _ = _
    rw [List.mergeSort_of_pairwise (by decide)]
    rfl

theorem wellNamed_figure : WellNamed figureGraph "type" none 0 (figure "square") := by
  refine .landing fun sid x hl => ?_
  cases hl
  refine .data rfl ?_ ?_
  · intro es t name hes ht hname
    cases hes
    cases ht
    cases hname
    exact ⟨square, by simp, rfl⟩
  · intro es t name hes ht hname x hx
    cases hes
    cases ht
    cases hname
    cases hx
    refine .fields (fun f hf _ => ?_) fun f hf _ _ y hy => .landing fun sid x hl => ?_
    · cases List.mem_singleton.1 hf
      rfl
    · cases List.mem_singleton.1 hf
      cases hy
      cases hl
      exact .scalar

theorem distinctClasses_figure : DistinctClasses figureGraph [(0, "Figure")] := by
  unfold DistinctClasses
  decide

theorem parse_of_read_figure : ∃ b s, buildSchema figureGraph 0 "type" = (.ok b, s) ∧
    figureGraph.Below Shape.Unadorned 0 ∧ DistinctClasses figureGraph b.names ∧
    WellNamed figureGraph b.tagField none 0 (figure "square") ∧
    (Converter.mk figureGraph b.nameTable).read 0 (figure "square") .root =
      .ok (.record [("kind", .text "Square"), ("side", .ofInt 3)]) ∧
    ∃ q notes, (Parser.parse ⟨figureGraph, b, 0, fun _ _ => .ok true, .quiet⟩
        (figure "square")).result = .ok (q, notes) ∧
      q.native = .record [("kind", .text "Square"), ("side", .ofInt 3)] := by
  obtain ⟨b, s, hb, hnames, htag, -⟩ := built_figure
  have hshapes : figureGraph.Below Shape.Unadorned 0 := fun i _ => unadorned_figureGraph i
  have hclasses : DistinctClasses figureGraph b.names := by
    rw [hnames]
    exact distinctClasses_figure
  have hnamed : WellNamed figureGraph b.tagField none 0 (figure "square") := by
    rw [htag]
    exact wellNamed_figure
  have hread := read_figure b.nameTable (.inr rfl : "square" = "Square" ∨ _)
  exact ⟨b, s, hb, hshapes, hclasses, hnamed, hread,
    parse_of_read hb hshapes hclasses hnamed hread _ _⟩

section
variable {g : Graph} {v : Value} {b : Bundle} {s : BuildState} {n : Native}

/-- Parsing disagrees with the reader if what coercion makes of a value is not read alike. -/
theorem disagrees_of_run (hb : buildSchema g 0 "type" = (.ok b, s))
    (hfree : ∀ i, (g.shape i).CodecFree) (hrules : ∀ i, (g.shape i).Unruled)
    (hclasses : DistinctClasses g b.names)
    (hread : (Converter.mk g b.nameTable).read 0 v .root = .ok n)
    (hrun : ∀ w m, ((Coercer.mk b.schema (fun _ _ => .ok true) .quiet).run v b.schema.target
      .root).result = .ok (w, m) → (Converter.mk g b.nameTable).read 0 w .root ≠ .ok n) :
    Disagrees g v := by
  refine ⟨b, s, n, hb, fun i _ => hfree i, fun i _ => hrules i, hclasses, hread,
    fun q notes hq => ?_⟩
  obtain ⟨w, m, hw, hn⟩ := read_of_parse hq
  rintro rfl
  exact hrun w m hw hn

theorem disagrees_of_error (hb : buildSchema g 0 "type" = (.ok b, s))
    (hshapes : ∀ i, (g.shape i).Unadorned) (hclasses : DistinctClasses g b.names)
    (hread : (Converter.mk g b.nameTable).read 0 v .root = .ok n)
    (hrun : ∃ e, ((Coercer.mk b.schema (fun _ _ => .ok true) .quiet).run v b.schema.target
      .root).result = .error e) : Disagrees g v := by
  obtain ⟨e, he⟩ := hrun
  refine disagrees_of_run hb (fun i => (hshapes i).codecFree) (fun i => (hshapes i).unruled)
    hclasses hread fun w m hw => ?_
  cases he.symm.trans hw

end

/-- The tag has to be the one that the schema shows, and the real name of the variant is not. -/
theorem disagrees_figure : Disagrees figureGraph (figure "Square") := by
  obtain ⟨b, s, hb, hnames, -, htarget, hcircle, hsquare⟩ := built_figure
  refine disagrees_of_error hb unadorned_figureGraph (hnames ▸ distinctClasses_figure)
    (read_figure b.nameTable (.inl rfl)) ?_
  simp [Coercer.run, htarget, Coercer.coerce, Coercer.coerceForm, hcircle, hsquare, figure,
    Value.entries?, Name.lookup?, Entries.find?, Literal.matches]
  exact ⟨_, rfl⟩

/-- Modes as literals. -/
def modeGraph : Graph where
  shapes := #[.enum { ident := "Mode" } none true [{ name := "Fast", rename := some "fast" }]]

/-- A literal has to be the one that the schema shows. -/
theorem disagrees_mode : Disagrees modeGraph (.text "Fast") := by
  obtain ⟨b, s, hb, hnames, htarget⟩ : ∃ b s, buildSchema modeGraph 0 "type" = (.ok b, s) ∧
      b.names = [(0, "Mode")] ∧
      b.schema.target = .union [.literal (.string "fast") {}] none {} := ⟨_, _, rfl, rfl, rfl⟩
  have hshapes (i : ShapeId) : (modeGraph.shape i).Unadorned :=
    Graph.forall_shape (by decide) (by decide) i
  refine disagrees_of_error (n := .text "Fast") hb hshapes ?_ ?_ ?_
  · rw [hnames]
    unfold DistinctClasses
    decide
  · exact (read_texts_ok rfl rfl).2 ⟨_, { name := "Fast", rename := some "fast" }, rfl, rfl, rfl⟩
  · simp [Coercer.run, htarget, Coercer.coerce, Coercer.coerceForm, Literal.matches]
    exact ⟨_, rfl⟩

/-- Levels of which one is shown under the name of the other. -/
def levelGraph : Graph where
  shapes := #[.enum { ident := "Level" } none false [
    { name := "Low", rename := some "Base" }, { name := "High", rename := some "Low" }]]

/-- Coercion puts the real name of a variant in place of the shown one, and the reader takes it for
the shown name of another. -/
theorem disagrees_level : Disagrees levelGraph (.text "Base") := by
  obtain ⟨b, s, hb, hnames, htarget, hlevel⟩ : ∃ b s,
      buildSchema levelGraph 0 "type" = (.ok b, s) ∧ b.names = [(0, "Level")] ∧
      b.schema.target = .enumRef "Level" false {} ∧ b.schema.findEnum? "Level" =
        some { name := ⟨"Level", none⟩, values := [
          ⟨⟨"Low", some "Base"⟩, none⟩, ⟨⟨"High", some "Low"⟩, none⟩] } := by
    refine ⟨_, _, rfl, rfl, rfl, ?_⟩
    show (List.mergeSort [_] _).find? _ = _
    rw [List.mergeSort_singleton]
    rfl
  have hshapes (i : ShapeId) : (levelGraph.shape i).Unadorned :=
    Graph.forall_shape (by decide) (by decide) i
  refine disagrees_of_run (n := .text "Low") hb (fun i => (hshapes i).codecFree)
    (fun i => (hshapes i).unruled) ?_ ?_ ?_
  · rw [hnames]
    unfold DistinctClasses
    decide
  · exact (read_texts_ok rfl rfl).2 ⟨_, { name := "Low", rename := some "Base" }, rfl, rfl, rfl⟩
  · intro w m hw hread
    have hrun : ((Coercer.mk b.schema (fun _ _ => .ok true) .quiet).run (.text "Base")
        b.schema.target .root).result = .ok (.enumOf "Level" "Low",
          { flags := [⟨.stringToEnum, Path.root.text, some "Base"⟩] }) := by
      simp [Coercer.run, htarget, Coercer.coerce, Coercer.coerceForm, Coercer.coerceEnum, hlevel,
        Value.variantName?, EnumDef.findValue?]
      rfl
    cases hrun.symm.trans hw
    obtain ⟨name, x, hname, hx, hn⟩ := (read_texts_ok rfl rfl).1 hread
    cases hname
    cases hx
    simp at hn

/-- A login whose user has one more name. -/
def loginGraph : Graph where
  shapes := #[
    .struct { ident := "Login" } [{ name := "user", shape := 1, altName := some "username" }],
    .scalar .string]

/-- The other name of a field is no name of the schema's. -/
theorem disagrees_login : Disagrees loginGraph (.map [("username", .text "ada")]) := by
  obtain ⟨b, s, hb, hnames, htarget, hlogin⟩ : ∃ b s,
      buildSchema loginGraph 0 "type" = (.ok b, s) ∧ b.names = [(0, "Login")] ∧
      b.schema.target = .classRef "Login" .complete false {} ∧
      b.schema.findClass? "Login" .complete = some { name := ⟨"Login", none⟩, fields := [
          ⟨⟨"user", none⟩, .prim .string {}, none, false⟩] } := by
    refine ⟨_, _, rfl, rfl, rfl, ?_⟩
    show (List.mergeSort [_] _).find? _ = _
    rw [List.mergeSort_singleton]
    rfl
  have hshapes (i : ShapeId) : (loginGraph.shape i).Unadorned :=
    Graph.forall_shape (by decide) (by decide) i
  refine disagrees_of_error (n := .record [("user", .text "ada")]) hb hshapes ?_ ?_ ?_
  · rw [hnames]
    unfold DistinctClasses
    decide
  · refine (read_struct_ok rfl).2 ⟨_, [("user", .text "ada")], rfl,
      .cons ⟨rfl, .found rfl rfl (fun _ => rfl) ?_⟩ .nil, rfl⟩
    rw [readField_plain ⟨rfl, rfl, rfl⟩ rfl]
    exact read_scalar rfl rfl
  · simp [Coercer.run, htarget, Coercer.coerce, Coercer.coerceForm, hlogin, Value.entries?,
      Name.lookup?, Entries.find?, Schema.acceptsNull, Schema.acceptsNullAmong]
    exact ⟨_, rfl⟩

/-- Two fields of one name. -/
def twinGraph : Graph where
  shapes := #[
    .struct { ident := "Twin" } [
      { name := "it", shape := 1, rename := some "count" },
      { name := "it", shape := 2, rename := some "label" }],
    .scalar .i64, .scalar .string]

/-- Coercion leaves one value for the two fields. -/
theorem disagrees_twin : Disagrees twinGraph (.map [("count", .int 1), ("label", .text "a")]) := by
  obtain ⟨b, s, hb, hnames, htarget, htwin⟩ : ∃ b s,
      buildSchema twinGraph 0 "type" = (.ok b, s) ∧ b.names = [(0, "Twin")] ∧
      b.schema.target = .classRef "Twin" .complete false {} ∧
      b.schema.findClass? "Twin" .complete = some { name := ⟨"Twin", none⟩, fields := [
          ⟨⟨"it", some "count"⟩, .prim .int {}, none, false⟩,
          ⟨⟨"it", some "label"⟩, .prim .string {}, none, false⟩] } := by
    refine ⟨_, _, rfl, rfl, rfl, ?_⟩
    show (List.mergeSort [_] _).find? _ = _
    rw [List.mergeSort_singleton]
    rfl
  have hfree (i : ShapeId) : (twinGraph.shape i).CodecFree :=
    Graph.forall_shape (by decide) (by decide) i
  have hrules (i : ShapeId) : (twinGraph.shape i).Unruled :=
    Graph.forall_shape (by decide) (by decide) i
  refine disagrees_of_run (n := .record [("it", .big 1), ("it", .text "a")]) hb hfree hrules
    ?_ ?_ ?_
  · rw [hnames]
    unfold DistinctClasses
    decide
  · refine (read_struct_ok rfl).2 ⟨_, [("it", .big 1), ("it", .text "a")], rfl,
      .cons ⟨rfl, .found rfl rfl (fun _ => rfl) ?_⟩
        (.cons ⟨rfl, .found rfl rfl (fun _ => rfl) ?_⟩ .nil), rfl⟩
    · rw [readField_plain ⟨rfl, rfl, rfl⟩ rfl]
      exact read_scalar rfl rfl
    · rw [readField_plain ⟨rfl, rfl, rfl⟩ rfl]
      exact read_scalar rfl rfl
  · intro w m hw hread
    have hrun : ((Coercer.mk b.schema (fun _ _ => .ok true) .quiet).run
        (.map [("count", .int 1), ("label", .text "a")]) b.schema.target .root).result =
          .ok (.classOf "Twin" [("it", .text "a")], {}) := by
      simp [Coercer.run, htarget, Coercer.coerce, Coercer.coerceForm, htwin, Value.entries?,
        Name.lookup?, Entries.find?]
      rfl
    cases hrun.symm.trans hw
    obtain ⟨es, ns, hes, hns, -⟩ := (read_struct_ok rfl).1 hread
    cases hes
    cases hns with
    | cons hfirst =>
    have hcount := (readsMember_found rfl (rfl : Field.lookup? _ _ = some (.text "a"))
      fun _ => rfl).1
      hfirst.2
    rw [readField_plain ⟨rfl, rfl, rfl⟩ rfl] at hcount
    cases readScalar_of_read rfl hcount

/-- Parsing does not answer what is read under names that the schema does not know: a tag and a
literal by real name, and the other name of a field. Nor does it if a variant is shown under the
real name of the one that is meant, or if two fields have one name. -/
theorem parse_of_read_fails : Disagrees figureGraph (figure "Square") ∧
    Disagrees modeGraph (.text "Fast") ∧ Disagrees levelGraph (.text "Base") ∧
    Disagrees loginGraph (.map [("username", .text "ada")]) ∧
    Disagrees twinGraph (.map [("count", .int 1), ("label", .text "a")]) :=
  ⟨disagrees_figure, disagrees_mode, disagrees_level, disagrees_login, disagrees_twin⟩

end Parser

end ShapeSchema
