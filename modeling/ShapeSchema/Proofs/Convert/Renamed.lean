import ShapeSchema.Proofs.Convert.Variants

/-!
# Unit enums under renames

The variants of a unit enum have real names, rendered names and sometimes others, which may overlap.
The writer goes by real names, the reader looks for rendered names first, coercion for real ones,
unless the enum is a union of texts, which are the rendered names. What becomes of a variant on these
ways says `convert_renamed`: what is written is read back unless another one is shown under the real
name, and by the rendered name coercion selects the variant itself or another one that really has
this name. Other names never matter.
-/

namespace ShapeSchema

namespace Variant

/-- What a variant of a unit enum is written as. -/
def unitForm (asUnion : Bool) (owner : String) (x : Variant) : Value :=
  if asUnion then .text x.rendered else .enumOf owner x.name

/-- The variant that coercion selects by a text: a union of texts knows the rendered names only. -/
def selected? (asUnion : Bool) (vs : List Variant) (name : String) : Option Variant :=
  if asUnion then vs.find? fun v => v.rendered == name else known? vs name

/-- The flags of a coercion that selects the variant at a place by a text. -/
def choiceFlags (asUnion : Bool) (vs : List Variant) (place : Nat) (name : String) (path : Path) :
    List Flag :=
  if asUnion then
    if 1 < vs.length then [⟨.unionMember, path.text, some (toString place)⟩] else []
  else [⟨.stringToEnum, path.text, some name⟩]

theorem mem_of_known? {vs : List Variant} {name : String} {x : Variant}
    (h : known? vs name = some x) : x ∈ vs := by
  rcases Option.or_eq_some_iff.1 h with h | ⟨-, h⟩
  · exact List.mem_of_find?_eq_some h
  · exact List.mem_of_find?_eq_some h

/-- By the rendered name of a variant a unit enum selects this variant, unless it knows real names and
another variant really has this name: then it selects the other one. -/
theorem selected?_rendered (asUnion : Bool) {vs : List Variant} (hnames : (vs.map (·.name)).Nodup)
    (hrendered : (vs.map (·.rendered)).Nodup) {x : Variant} (hx : x ∈ vs) :
    ∃ y ∈ vs, selected? asUnion vs x.rendered = some y ∧
      (y = x ↔ asUnion = true ∨ ∀ z ∈ vs, z.name = x.rendered → z.name = x.name) ∧
      (y ≠ x → y.name = x.rendered) := by
  have hshown : (vs.find? fun v => v.rendered == x.rendered) = some x :=
    find?_of_nodup_map hrendered hx
  cases asUnion with
  | true => exact ⟨x, hx, hshown, by simp, absurd rfl⟩
  | false =>
    show ∃ y ∈ vs, known? vs x.rendered = some y ∧ _
    unfold known?
    cases hreal : vs.find? fun v => v.name == x.rendered with
    | none =>
      rw [Option.none_or, hshown]
      have hnone := List.find?_eq_none.1 hreal
      refine ⟨x, hx, rfl, iff_of_true rfl (.inr fun z hz he => ?_), absurd rfl⟩
      exact absurd (beq_iff_eq.2 he) (hnone z hz)
    | some y =>
      have hy := List.mem_of_find?_eq_some hreal
      have hname : y.name = x.rendered := by simpa using List.find?_some hreal
      refine ⟨y, hy, rfl, ⟨?_, fun h => ?_⟩, fun _ => hname⟩
      · rintro rfl
        exact .inr fun z _ he => he.trans hname.symm
      · exact List.inj_on_of_nodup_map hnames hy hx (h.resolve_left Bool.false_ne_true y hy hname)

end Variant

/-! ## Runs with known flags -/

namespace Checked

variable {α β : Type} {fs gs : List Flag}

/-- A run answers a value, takes some liberties and no others, and drops nothing. -/
def Flags (fs : List Flag) (x : Checked α) (a : α) : Prop :=
  x.Answers (fun n => n.flags = fs ∧ n.explanations = []) a

theorem flags_pure (a : α) : (Pure.pure a : Checked α).Flags [] a := ⟨{}, rfl, rfl, rfl⟩

theorem flags_flag (f : Flag) : (flag f).Flags [f] () := ⟨_, rfl, rfl, rfl⟩

theorem Flags.bind {x : Checked α} {f : α → Checked β} {a : α} {b : β} (hx : x.Flags fs a)
    (hf : (f a).Flags gs b) : (x >>= f).Flags (fs ++ gs) b := by
  obtain ⟨m, hm, hmf, hme⟩ := hx
  obtain ⟨n, hn, hnf, hne⟩ := hf
  refine ⟨m ++ n, ok_bind.2 ⟨a, m, n, hm, hn, rfl⟩, ?_, ?_⟩
  · rw [Notes.append_flags, hmf, hnf]
  · rw [Notes.append_explanations, hme, hne, List.nil_append]

theorem flags_evaluate (v : Value) (cs : List Constraint) (eval : Evaluator) :
    (evaluateConstraints v cs eval .quiet).Flags [] () :=
  answers_evaluate ⟨⟨rfl, rfl⟩, fun ha hb => ⟨by simp [ha.1, hb.1], by simp [ha.2, hb.2]⟩⟩
    (fun _ hflags hexplanations => ⟨hflags, hexplanations⟩) v cs eval

end Checked

namespace Coercer

variable {c : Coercer} {a : Authored} {pending : List String} {path : Path}

theorem flags_coerce (hq : c.sink = .quiet) {v w : Value} {t : Ty Authored} {fs : List Flag}
    (h : (c.coerceForm pending v t path).Flags fs w) :
    (c.coerce pending v t path).Flags fs w := by
  have hrest : (evaluateConstraints w t.ann.constraints c.eval .quiet >>= fun _ =>
      (Pure.pure w : Checked Value)).Flags [] w :=
    (Checked.flags_evaluate w _ c.eval).bind (Checked.flags_pure w)
  rw [coerce, hq, ← List.append_nil fs]
  exact h.bind hrest

/-- A text becomes the value of the variant that the enum knows by it. -/
theorem flags_enumRef {n name : String} {d : Declared} {vs : List Variant} {cs : List Constraint}
    {dyn : Bool} (he : c.schema.findEnum? n = some (Builder.enumDef n d vs cs)) {x : Variant}
    (hx : Variant.known? vs name = some x) :
    (c.coerceForm pending (.text name) (.enumRef n dyn a) path).Flags
      [⟨.stringToEnum, path.text, some name⟩] (.enumOf n x.name) := by
  have hfound := Converter.findValue?_enumDef n d vs cs name
  rw [hx] at hfound
  rw [coerceForm]
  unfold coerceEnum
  rw [he]
  simp only [Value.variantName?, hfound, Option.map_some]
  exact (Checked.flags_flag _).bind (Checked.flags_pure _)

/-- A text is taken by the first member of a union of texts that it agrees with. -/
theorem flags_texts (hq : c.sink = .quiet) {name : String} {vs : List Variant} {i : Nat}
    (hi : i < vs.length) (hname : vs[i].rendered = name)
    (hbefore : ∀ (j : Nat) (hj : j < i), vs[j].rendered ≠ name) :
    (c.coerceForm pending (.text name)
      (.union (vs.map fun v => .literal (.string v.rendered) {}) none a) path).Flags
      (if 1 < vs.length then [⟨.unionMember, path.text, some (toString i)⟩] else [])
      (.text name) := by
  rw [coerceForm, Option.isSome_none, Bool.and_false, if_neg Bool.false_ne_true]
  refine answers_firstFit (i := i) (by simpa using hi) ?_ fun j hj => ?_
  · simp only [List.getElem_map, List.getElem_zipIdx, List.getElem_attach, Nat.zero_add,
      List.length_map, hname]
    have htaken : (c.coerceForm pending (.text name) (.literal (.string name) {}) path).Flags []
        (.text name) := by
      have hmatches : (Literal.string name).matches (.text name) = true := beq_self_eq_true name
      rw [coerceForm, if_pos hmatches]
      exact Checked.flags_pure _
    by_cases hmany : 1 < vs.length
    · simp only [if_pos hmany]
      exact (flags_coerce hq htaken).bind ((Checked.flags_flag _).bind (Checked.flags_pure _))
    · simp only [if_neg hmany]
      exact (flags_coerce hq htaken).bind (Checked.flags_pure _)
  · simp only [List.getElem_map, List.getElem_zipIdx, List.getElem_attach]
    have hrefuses : c.Refuses (.text name) (.literal (.string vs[j].rendered) {}) :=
      refuses_literal (by simpa [Literal.matches] using (hbefore j hj).symm)
    obtain ⟨e, he⟩ := hrefuses.coerce pending path
    exact ⟨e, Checked.error_bind he _⟩

end Coercer

namespace Converter

open Builder

/-! ## Unit enums in their schema -/

section
variable {g : Graph} {tag : String} {s : BuildState} {id : ShapeId} {d : Declared}
  {own : Option String} {asUnion : Bool} {vs : List Variant}
  (hshape : g.shape id = .enum d own asUnion vs) (hunits : isDataEnum vs = false)
include hshape hunits

theorem codecFree_of_units : g.Below Shape.CodecFree id := by
  have nofields : ∀ fs ∈ (g.shape id).fieldGroups, fs = [] := by
    rw [hshape]
    intro fs hfs
    obtain ⟨v, hv, rfl⟩ := List.mem_map.1 hfs
    simpa using List.any_eq_false.1 hunits v hv
  intro i hi
  rcases Relation.ReflTransGen.cases_head hi with rfl | ⟨j, hj, -⟩
  · intro fs hfs f hf
    rw [nofields fs hfs] at hf
    cases hf
  · have hj' : j ∈ (g.shape id).fieldGroups.flatMap fun fs => fs.map (·.shape) := by
      rwa [hshape] at hj ⊢
    obtain ⟨fs, hfs, hj⟩ := List.mem_flatMap.1 hj'
    rw [nofields fs hfs] at hj
    cases hj

/-- A text coerces to what the variant that it selects is written as. -/
theorem flags_selected (hs : Sound g tag (fun _ => False) s) {t : Ty Authored}
    (ht : HasType g s id t) {name : String} {y : Variant}
    (hy : Variant.selected? asUnion vs name = some y) (target : Ty Authored) :
    ∃ i, vs[i]? = some y ∧ ∀ eval pending path,
      ((Coercer.mk (s.registry.freeze target) eval .quiet).coerce pending (.text name) t path).Flags
        (Variant.choiceFlags asUnion vs i name path)
        (y.unitForm asUnion (NameTable.internalName ⟨s.names, tag⟩ id d)) := by
  cases ht with
  | declared _ hfound =>
    cases hs.complete hfound with
    | struct hs' =>
      rw [hshape] at hs'
      cases hs'
    | variants hs' hdata =>
      obtain ⟨-, -, -, rfl⟩ := Shape.enum.inj (hshape.symm.trans hs')
      cases hunits.symm.trans hdata
    | texts hs' =>
      obtain ⟨rfl, rfl, rfl, rfl⟩ := Shape.enum.inj (hshape.symm.trans hs')
      obtain ⟨hname, i, hi, rfl, hbefore⟩ := List.find?_eq_some_iff_getElem.1 hy
      obtain rfl := beq_iff_eq.1 hname
      refine ⟨i, List.getElem?_eq_getElem hi, fun eval pending path => ?_⟩
      rw [unionOf_map fun _ => rfl]
      obtain ⟨a, ha⟩ := Coercer.exists_withAnn
        (Ty.union (vs.map fun v => Ty.literal (.string v.rendered) {}) none {}) _
      rw [ha]
      exact Coercer.flags_coerce rfl (Coercer.flags_texts rfl hi rfl fun j hj => by
        simpa using hbefore j hj)
    | enumRef hs' _ hn he =>
      obtain ⟨rfl, rfl, rfl, rfl⟩ := Shape.enum.inj (hshape.symm.trans hs')
      obtain ⟨e, hfound, d', own', u', vs', hshape', rfl⟩ := found_enum target hs hn he
      obtain ⟨rfl, rfl, rfl, rfl⟩ := Shape.enum.inj (hshape.symm.trans hshape')
      obtain ⟨i, hi, rfl⟩ := List.getElem_of_mem (Variant.mem_of_known? hy)
      refine ⟨i, List.getElem?_eq_getElem hi, fun eval pending path => ?_⟩
      obtain ⟨a, ha⟩ := Coercer.exists_withAnn (Ty.enumRef _ false {}) _
      rw [ha, internalName_of_find? hn]
      exact Coercer.flags_coerce rfl (Coercer.flags_enumRef hfound hy)
  | scalar hs' | option hs' | list hs' | map hs' | pointer hs' =>
    rw [hshape] at hs'
    cases hs'

/-- What is written for a variant is read back if no other one is shown under its real name. The
texts of a union are rendered names, which the reader looks for first. -/
theorem read_unitForm (hrendered : (vs.map (·.rendered)).Nodup) {x : Variant} (hx : x ∈ vs)
    (hapart : asUnion = true ∨ ∀ y ∈ vs, y.rendered = x.name → y.name = x.name) (names : NameTable)
    (owner : String) (path : Path) :
    (Converter.mk g names).read id (x.unitForm asUnion owner) path = .ok (.text x.name) := by
  have hl := Graph.land_of_bare hshape rfl false
  cases asUnion with
  | true => exact read_texts hl hunits rfl (match?_rendered hrendered hx)
  | false =>
    obtain ⟨y, hy, hname⟩ := match?_real hx (hapart.resolve_left Bool.false_ne_true)
    rw [← hname]
    exact read_texts hl hunits rfl hy

theorem write_unitForm (hnames : (vs.map (·.name)).Nodup) {x : Variant} (hx : x ∈ vs)
    (names : NameTable) (path : Path) :
    (Converter.mk g names).write id (.text x.name) path =
      .ok (x.unitForm asUnion (names.internalName id d)) :=
  (write_texts_ok (Graph.land_of_bare hshape rfl _) hunits).2
    ⟨x, find?_of_nodup_map hnames hx, rfl⟩

end

/-! ## Top theorem -/

/-- A variant of a unit enum is written, and read back if no other one is shown under its real name
or the enum is a union of texts. By its rendered name coercion selects the variant itself if no
other one really has this name or the enum is a union of texts, else the other one. -/
theorem convert_renamed {g : Graph} {tag : String} {root : ShapeId} {b : Bundle} {s : BuildState}
    (hb : buildSchema g root tag = (.ok b, s)) {d : Declared} {own : Option String} {asUnion : Bool}
    {vs : List Variant} (hshape : g.shape root = .enum d own asUnion vs)
    (hunits : isDataEnum vs = false) (hnames : (vs.map (·.name)).Nodup)
    (hrendered : (vs.map (·.rendered)).Nodup) {x : Variant} (hx : x ∈ vs) :
    (∀ names path, (Converter.mk g names).write root (.text x.name) path =
      .ok (x.unitForm asUnion (names.internalName root d))) ∧
    ((asUnion = true ∨ ∀ y ∈ vs, y.rendered = x.name → y.name = x.name) → ∀ names path,
      (Converter.mk g names).read root (x.unitForm asUnion (names.internalName root d)) path =
        .ok (.text x.name)) ∧
    ∀ eval path, ∃ i y n, vs[i]? = some y ∧
      ((Coercer.mk b.schema eval .quiet).run (.text x.rendered) b.schema.target path).result =
        .ok (y.unitForm asUnion (b.nameTable.internalName root d), n) ∧
      n.flags = Variant.choiceFlags asUnion vs i x.rendered path ∧ n.explanations = [] ∧
      (y = x ↔ asUnion = true ∨ ∀ z ∈ vs, z.name = x.rendered → z.name = x.name) ∧
      (y ≠ x → y.name = x.rendered) := by
  refine ⟨write_unitForm hshape hunits hnames hx, fun hapart names =>
    read_unitForm hshape hunits hrendered hx hapart names _, fun eval path => ?_⟩
  obtain ⟨target, rfl, hsound, htarget⟩ :=
    built_of_buildSchema (codecFree_of_units hshape hunits) hb
  obtain ⟨y, -, hy, hsame, hother⟩ := Variant.selected?_rendered asUnion hnames hrendered hx
  obtain ⟨i, hi, hflags⟩ := flags_selected hshape hunits hsound htarget hy target
  obtain ⟨n, hn, hnf, hne⟩ := hflags eval (s.registry.freeze target).aliasNames path
  exact ⟨i, y, n, hi, hn, hnf, hne, hsame, hother⟩

/-- A signal whose real, rendered and other names overlap. -/
def signalGraph : Graph where
  shapes := #[.enum { ident := "Signal" } none false [
    { name := "Stop", rename := some "Red", altName := some "Go" },
    { name := "Go", rename := some "Green" },
    { name := "Wait", altName := some "Green" }]]

theorem convert_renamed_signal : ∃ b s n, buildSchema signalGraph 0 "type" = (.ok b, s) ∧
    (Converter.mk signalGraph b.nameTable).write 0 (.text "Go") {} = .ok (.enumOf "Signal" "Go") ∧
    (Converter.mk signalGraph b.nameTable).read 0 (.enumOf "Signal" "Go") {} = .ok (.text "Go") ∧
    ((Coercer.mk b.schema (fun _ _ => .ok true) .quiet).run (.text "Green") b.schema.target
      {}).result = .ok (.enumOf "Signal" "Go", n) ∧
    n.flags = [⟨.stringToEnum, Path.root.text, some "Green"⟩] := by
  have hb : ∃ b s, buildSchema signalGraph 0 "type" = (.ok b, s) ∧
      b.nameTable = ⟨[(0, "Signal")], "type"⟩ := ⟨_, _, rfl, rfl⟩
  obtain ⟨b, s, hb, hnames⟩ := hb
  obtain ⟨hwrite, hread, hrun⟩ := convert_renamed hb rfl rfl (by decide) (by decide)
    (x := { name := "Go", rename := some "Green" }) (by simp)
  obtain ⟨i, y, n, -, hn, hflags, -, hsame, -⟩ := hrun (fun _ _ => .ok true) {}
  obtain rfl := hsame.2 (.inr (by decide))
  have hread := hread (.inr (by decide)) b.nameTable {}
  have hwrite := hwrite b.nameTable {}
  rw [hnames] at hwrite hread hn
  exact ⟨b, s, n, hb, hnames ▸ hwrite, hnames ▸ hread, hn, hflags⟩

/-- The variants of the enum of `swapGraph`. -/
def swappedColors : List Variant :=
  [{ name := "Red", rename := some "Blue" }, { name := "Blue", rename := some "Red" }]

/-- Two variants have swapped their names: what is written for the one is read back as the other, and
by its rendered name coercion selects the other one. -/
theorem convert_renamed_fails : ∃ b s n,
    swapGraph.shape 2 = .enum { ident := "Color" } none false swappedColors ∧
    isDataEnum swappedColors = false ∧ (swappedColors.map (·.name)).Nodup ∧
    (swappedColors.map (·.rendered)).Nodup ∧
    ({ name := "Red", rename := some "Blue" } : Variant) ∈ swappedColors ∧
    buildSchema swapGraph 2 "type" = (.ok b, s) ∧
    (Converter.mk swapGraph b.nameTable).write 2 (.text "Red") {} = .ok (.enumOf "Color" "Red") ∧
    (Converter.mk swapGraph b.nameTable).read 2 (.enumOf "Color" "Red") {} = .ok (.text "Blue") ∧
    ((Coercer.mk b.schema (fun _ _ => .ok true) .quiet).run (.text "Blue") b.schema.target
      {}).result = .ok (.enumOf "Color" "Blue", n) := by
  have hb : ∃ b s, buildSchema swapGraph 2 "type" = (.ok b, s) ∧
      b.nameTable = ⟨[(2, "Color")], "type"⟩ := ⟨_, _, rfl, rfl⟩
  obtain ⟨b, s, hb, hnames⟩ := hb
  have hshape : swapGraph.shape 2 = .enum { ident := "Color" } none false swappedColors := rfl
  have hmem : ({ name := "Red", rename := some "Blue" } : Variant) ∈ swappedColors :=
    List.mem_cons_self
  have hwrite := write_unitForm hshape rfl (by decide) hmem b.nameTable {}
  have hread : (Converter.mk swapGraph b.nameTable).read 2 (.enumOf "Color" "Red") {} =
      .ok (.text "Blue") :=
    read_texts (x := { name := "Blue", rename := some "Red" }) rfl rfl rfl rfl
  rw [hnames] at hwrite
  obtain ⟨target, rfl, hsound, htarget⟩ :=
    built_of_buildSchema (codecFree_of_units hshape rfl) hb
  have hblue : Variant.selected? false swappedColors "Blue" =
      some { name := "Blue", rename := some "Red" } := rfl
  obtain ⟨i, -, hflags⟩ := flags_selected hshape rfl hsound htarget hblue target
  obtain ⟨n, hn, -⟩ := hflags (fun _ _ => .ok true) (s.registry.freeze target).aliasNames {}
  rw [show NameTable.mk s.names "type" = _ from hnames] at hn
  exact ⟨_, s, n, hshape, rfl, by decide, by decide, hmem, hb, hnames ▸ hwrite, hread, hn⟩

end Converter

end ShapeSchema
