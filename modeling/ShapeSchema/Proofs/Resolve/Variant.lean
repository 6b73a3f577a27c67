import ShapeSchema.Proofs.Convert.Written
import ShapeSchema.Proofs.Resolve.Scores

/-!
# The variant of a written value

Navigation goes by the keys of a value alone, not by its tag: of the classes of a data enum it takes
the first one that has a field for every key (`resolve_write`). For a written value of a variant
that is the class of this variant, unless a variant declared before it covers its fields.
-/

namespace ShapeSchema

namespace Name

theorem answersTo_of {real shown key : String} :
    (Name.of real shown).answersTo key = true ↔ real = key ∨ shown = key := by
  unfold answersTo of
  by_cases h : shown = real
  · subst h
    simp +contextual
  · simp [Option.filter, h]

end Name

namespace Variant

/-- Some field that is not skipped has this name or is rendered under it. -/
def knows (v : Variant) (key : String) : Bool :=
  v.fields.any fun f => !f.skip && (f.name == key || f.rendered == key)

/-- A variant knows the names of all fields that are written for another one. -/
def covers (v other : Variant) : Bool := other.fields.all fun f => f.skip || v.knows f.name

theorem covers_self (v : Variant) : v.covers v = true := by
  refine List.all_eq_true.2 fun f hf => ?_
  by_cases hskip : f.skip = true
  · rw [hskip]
    rfl
  · rw [Bool.or_eq_true]
    exact .inr (List.any_eq_true.2 ⟨f, hf, by simp [hskip]⟩)

end Variant

namespace Converter

open Builder

variable {g : Graph} {tag : String} {s : BuildState}

/-- The fields of a class have the names that the fields of its variant have. -/
theorem exists_answersTo {owner : String} {v : Option Variant} {fields : List Field}
    {defs : List FieldDef} (h : DefinesFields g s owner v fields defs) {key : String} :
    (∃ d ∈ defs, d.name.answersTo key = true) ↔
      ∃ f ∈ fields, f.skip = false ∧ (f.name = key ∨ f.rendered = key) := by
  constructor
  · rintro ⟨d, hd, hkey⟩
    obtain ⟨f, hf, hdef⟩ := exists_of_forall₂ h hd
    obtain ⟨hmem, hskip⟩ := List.mem_filter.1 hf
    rw [hdef.name, Name.answersTo_of] at hkey
    exact ⟨f, hmem, by simpa using hskip, hkey⟩
  · rintro ⟨f, hf, hskip, hkey⟩
    have hmem : f ∈ fields.filter fun f => !f.skip := List.mem_filter.2 ⟨hf, by rw [hskip]; rfl⟩
    obtain ⟨d, hd, hdef⟩ := exists_of_forall₂ h.flip hmem
    refine ⟨d, hd, ?_⟩
    rw [hdef.name, Name.answersTo_of]
    exact hkey

/-- The class of a variant has a field for the tag and for every key that the variant knows. -/
theorem knows_of_variant {cd : ClassDef} {own owner : String} {y : Variant} {ds : List FieldDef}
    (hfields : cd.fields = tagDef own y :: ds)
    (hdefs : DefinesFields g s owner (some y) y.fields ds) {key : String} :
    cd.Knows key ↔ own = key ∨ y.knows key = true := by
  have htag : (tagDef own y).name.answersTo key = true ↔ own = key := by
    simp [tagDef, Name.answersTo]
  unfold ClassDef.Knows Variant.knows
  rw [hfields, List.any_eq_true]
  simp only [List.mem_cons, exists_eq_or_imp, exists_answersTo hdefs, htag]
  simp

/-- The class of a variant has a field for every key that is written for a variant exactly if the one
variant covers the other. -/
theorem knows_written_iff {cd : ClassDef} {own owner : String} {x y : Variant} {ds : List FieldDef}
    (hfields : cd.fields = tagDef own y :: ds)
    (hdefs : DefinesFields g s owner (some y) y.fields ds) (hfree : TagFree own x.fields)
    {c : Converter} {ms : List (String × Native)} {path : Path} {fs : List (String × Value)}
    {w : Value} (hfs : c.WritesFields owner (some x) x.fields ms path fs) :
    (∀ key ∈ Entries.keys (Entries.ofList ((own, w) :: fs)), cd.Knows key) ↔
      y.covers x = true := by
  simp only [Entries.mem_keys_ofList, knows_of_variant hfields hdefs]
  show (∀ key ∈ own :: Entries.keys fs, _) ↔ _
  rw [keys_of_writesFields hfs]
  constructor
  · intro h
    refine List.all_eq_true.2 fun f hf => ?_
    by_cases hskip : f.skip = true
    · rw [hskip]
      rfl
    · have hmem : f ∈ x.fields.filter fun f => !f.skip := List.mem_filter.2 ⟨hf, by simp [hskip]⟩
      have hname := h f.name (List.mem_cons_of_mem _ (List.mem_map_of_mem hmem))
      rw [Bool.or_eq_true]
      exact .inr (hname.resolve_left fun htag => (hfree f hf).1 htag.symm)
  · intro h key hkey
    rcases List.mem_cons.1 hkey with rfl | hkey
    · exact .inl rfl
    · obtain ⟨f, hf, rfl⟩ := List.mem_map.1 hkey
      obtain ⟨hmem, hskip⟩ := List.mem_filter.1 hf
      have hcovered := List.all_eq_true.1 h f hmem
      rw [Bool.or_eq_true] at hcovered
      exact .inr (hcovered.resolve_left (by simpa using hskip))

/-! ## Resolution -/

/-- The class of a variant. -/
def variantRef (n : String) (v : Variant) : Ty Authored :=
  .classRef (variantClassName n v) .complete false {}

section
variable (hs : Sound g tag (fun _ => False) s) (hd : DistinctClasses g s.names)
  (target : Ty Authored) {id : ShapeId} {n : String} {d : Declared} {own : Option String} {u : Bool}
  {vs : List Variant} (hshape : g.shape id = .enum d own u vs) (hdata : isDataEnum vs = true)
  (hn : Entries.find? s.names id = some n) (hclass : ∀ v ∈ vs, HasClass s (variantClassName n v))
  {x : Variant} (hx : x ∈ vs) {c : Converter} {ms : List (String × Native)} {path : Path}
  {fs : List (String × Value)} (hfs : c.WritesFields n (some x) x.fields ms path fs) (w : Value)
include hs hd hshape hdata hn hclass hx hfs

/-- Against a written value, the class of a variant scores all of its entries exactly if the variant
covers the one that was written. -/
theorem score_variantRef {y : Variant} (hy : y ∈ vs) :
    let es := Entries.ofList ((own.getD tag, w) :: fs)
    let score := (s.registry.freeze target).score
      (.ofFields (variantClassName n x) ((own.getD tag, w) :: fs)) (variantRef n y)
    score ≤ es.length ∧ (score = es.length ↔ y.covers x = true) := by
  obtain ⟨-, -, -, -, -, hfree, -⟩ := found_variant target hs hd hshape hdata hn (hclass x hx) hx
  obtain ⟨cd, ds, hfound, -, hfields, -, hdefs⟩ :=
    found_variant target hs hd hshape hdata hn (hclass y hy) hy
  intro es score
  have hscore : score = Score.ofClass cd es := Schema.score_classRef rfl hfound
  rw [hscore, Score.ofClass_eq_length, knows_written_iff hfields hdefs hfree hfs]
  exact ⟨Score.ofClass_le cd es, Iff.rfl⟩

/-- Of the classes of a data enum, navigation into a written value takes the first one whose variant
covers the one that was written. -/
theorem resolveAmong_variants {y : Variant} (hy : vs.find? (fun y => y.covers x) = some y)
    (a : Authored) (pending : List String) :
    (s.registry.freeze target).resolveAmong pending
        (.ofFields (variantClassName n x) ((own.getD tag, w) :: fs))
        (.union (vs.map (variantRef n)) none a) = .resolved (variantRef n y) := by
  have score {y : Variant} (hy : y ∈ vs) :=
    score_variantRef hs hd target hshape hdata hn hclass hx hfs w hy
  have hpos : 0 < (Entries.ofList ((own.getD tag, w) :: fs)).length := by
    have hmem : own.getD tag ∈ Entries.keys (Entries.ofList ((own.getD tag, w) :: fs)) :=
      Entries.mem_keys_ofList.2 List.mem_cons_self
    obtain ⟨e, he, -⟩ := List.mem_map.1 hmem
    exact List.length_pos_of_mem he
  obtain ⟨hcovers, before, after, hsplit, hbefore⟩ := List.find?_eq_some_iff_append.1 hy
  have hmem : ∀ z, z ∈ before ∨ z = y ∨ z ∈ after → z ∈ vs := by
    intro z hz
    rw [hsplit]
    simpa using hz
  have hall := (score (hmem y (.inr (.inl rfl)))).2.2 hcovers
  have hbest : (s.registry.freeze target).FirstBest
      (.ofFields (variantClassName n x) ((own.getD tag, w) :: fs)) (vs.map (variantRef n))
      (variantRef n y) := by
    refine ⟨before.map (variantRef n), after.map (variantRef n), ?_, ?_, ?_⟩
    · rw [hsplit, List.map_append, List.map_cons]
    · intro t ht
      obtain ⟨z, hz, rfl⟩ := List.mem_map.1 ht
      obtain ⟨hle, hiff⟩ := score (hmem z (.inl hz))
      rw [hall]
      refine Nat.lt_of_le_of_ne hle fun heq => ?_
      have hnot := hbefore z hz
      rw [hiff.1 heq] at hnot
      cases hnot
    · intro t ht
      obtain ⟨z, hz, rfl⟩ := List.mem_map.1 ht
      rw [hall]
      exact (score (hmem z (.inr (.inr hz)))).1
  rw [Schema.resolveAmong_union rfl (hbest.choose (hall ▸ hpos))]
  exact Schema.resolveAmong_classRef _ _ _ _ _

end

/-- The type of a data enum is the union of the classes of its variants. -/
theorem type_of_data (hs : Sound g tag (fun _ => False) s) {id : ShapeId} {d : Declared}
    {own : Option String} {u : Bool} {vs : List Variant} (hshape : g.shape id = .enum d own u vs)
    (hdata : isDataEnum vs = true) {t : Ty Authored} (ht : HasType g s id t) :
    ∃ n a, Entries.find? s.names id = some n ∧
      (∀ v ∈ vs, HasClass s (variantClassName n v)) ∧
      t = .union (vs.map (variantRef n)) none a := by
  cases ht with
  | declared _ hfound =>
    cases hs.complete hfound with
    | variants hs' _ hn hv =>
      obtain ⟨rfl, rfl, rfl, rfl⟩ := Shape.enum.inj (hshape.symm.trans hs')
      rw [unionOf_map fun _ => rfl]
      obtain ⟨a, ha⟩ := Coercer.exists_withAnn (Ty.union (vs.map (variantRef _)) none {}) _
      exact ⟨_, a, hn, fun v hm => (hv v hm).registered, ha⟩
    | struct hs' =>
      rw [hshape] at hs'
      cases hs'
    | texts hs' hunit | enumRef hs' hunit =>
      obtain ⟨rfl, rfl, rfl, rfl⟩ := Shape.enum.inj (hshape.symm.trans hs')
      rw [hdata] at hunit
      cases hunit
  | scalar hs' | option hs' | list hs' | map hs' | pointer hs' =>
    rw [hshape] at hs'
    cases hs'

/-- Navigation into what is written for a variant of a data enum leads to the class of the first
variant that covers it. -/
theorem resolve_of_write {root : ShapeId} {b : Bundle}
    (hb : buildSchema g root tag = (.ok b, s)) (hfree : g.Below Shape.CodecFree root)
    (hclasses : DistinctClasses g b.names) {d : Declared} {own : Option String} {u : Bool}
    {vs : List Variant} (hshape : g.shape root = .enum d own u vs) (hdata : isDataEnum vs = true)
    {ms : List (String × Native)} {x : Variant} (hx : x ∈ vs)
    (htag : Entries.find? ms (own.getD tag) = some (.text x.name)) {path : Path} {w : Value}
    (hw : (Converter.mk g b.nameTable).write root (.object ms) path = .ok w) :
    ∃ n y, Entries.find? b.names root = some n ∧ vs.find? (fun y => y.covers x) = some y ∧
      ∀ here, (Cursor.mk w b.schema.target here).resolve b.schema = .resolved (variantRef n y) := by
  obtain ⟨target, rfl, hs, htarget⟩ := built_of_buildSchema hfree hb
  obtain ⟨n, a, hn, hclass, rfl⟩ := type_of_data hs hshape hdata htarget
  obtain ⟨ms', z, fs, hms, hz, hfs, rfl⟩ :=
    (write_data_ok (c := ⟨g, ⟨s.names, tag⟩⟩) (Graph.land_of_bare hshape rfl _) hdata).1 hw
  obtain rfl : ms = ms' := Option.some.inj hms
  -- the tag tells the variant, since no two variants have the same name
  obtain rfl : z = x := by
    rw [answer_of_find? htag] at hz
    exact variant_of_namedVariant? hclasses hshape hdata hn hx hz
  rw [internalName_of_find? hn] at hfs ⊢
  obtain ⟨y, hy⟩ : ∃ y, vs.find? (fun y => y.covers z) = some y := by
    refine Option.isSome_iff_exists.1 (List.find?_isSome.2 ⟨z, hx, z.covers_self⟩)
  refine ⟨n, y, hn, hy, fun _ => ?_⟩
  exact resolveAmong_variants hs hclasses _ hshape hdata hn hclass hx hfs _ hy a _

/-- What is written for a variant of a data enum leads to the class of the first variant that covers
it. That is its own class exactly if no variant before it covers it. Values of the enum are written
if the keys that fields write as texts have texts. -/
theorem resolve_written {root : ShapeId} {b : Bundle} (hb : buildSchema g root tag = (.ok b, s))
    (hfree : g.Below Shape.CodecFree root) (hclasses : DistinctClasses g b.names) {d : Declared}
    {own : Option String} {u : Bool} {vs : List Variant} (hshape : g.shape root = .enum d own u vs)
    (hdata : isDataEnum vs = true) {ms : List (String × Native)} {x : Variant} (hx : x ∈ vs)
    (htag : Entries.find? ms (own.getD tag) = some (.text x.name)) (path : Path) :
    (g.Below (Shape.TextKeyed g) root → OfShape g tag root (.object ms) →
      ∃ w, (Converter.mk g b.nameTable).write root (.object ms) path = .ok w) ∧
    ∀ w, (Converter.mk g b.nameTable).write root (.object ms) path = .ok w →
      ∃ n, Entries.find? b.names root = some n ∧ ∀ here,
        (∃ y, vs.find? (fun y => y.covers x) = some y ∧
          (Cursor.mk w b.schema.target here).resolve b.schema = .resolved (variantRef n y)) ∧
        ((Cursor.mk w b.schema.target here).resolve b.schema = .resolved (variantRef n x) ↔
          ∃ before after, vs = before ++ x :: after ∧ ∀ y ∈ before, y.covers x = false) := by
  refine ⟨fun hkeys hv => ?_, fun w hw => ?_⟩
  · exact write_of_shape hb (fun i hi => ⟨hfree i hi, hkeys i hi⟩) hclasses hv path
  obtain ⟨n, y, hn, hy, hresolve⟩ := resolve_of_write hb hfree hclasses hshape hdata hx htag hw
  refine ⟨n, hn, fun here => ⟨⟨y, hy, hresolve here⟩, ?_⟩⟩
  have hown : (∃ before after, vs = before ++ x :: after ∧ ∀ y ∈ before, y.covers x = false) ↔
      y = x := by
    rw [← Option.some_inj, ← hy, List.find?_eq_some_iff_append]
    simp [x.covers_self]
  rw [hresolve here, hown]
  constructor
  · intro h
    obtain ⟨t, rfl, -⟩ := built_of_buildSchema hfree hb
    have hmem := List.mem_of_find?_eq_some hy
    refine variant_unique hclasses hshape hdata hn hmem hx ?_
    exact (Ty.classRef.inj (Resolution.resolved.inj h)).1
  · rintro rfl
    rfl

/-- A payment by card, or by a voucher, which is a part of what a card has. -/
def card : Variant where
  name := "Card"
  fields := [{ name := "number", shape := 1 }, { name := "holder", shape := 1 }]

def voucher : Variant where
  name := "Voucher"
  fields := [{ name := "number", shape := 1 }]

def paymentGraph : Graph where
  shapes := #[.enum { ident := "Payment" } none false [card, voucher], .scalar .string]

theorem shape_payment :
    paymentGraph.shape 0 = .enum { ident := "Payment" } none false [card, voucher] := rfl

theorem codecFree_paymentGraph : ∀ i, (paymentGraph.shape i).CodecFree :=
  Graph.forall_shape (by decide) (by decide)

theorem built_payment : ∃ b s, buildSchema paymentGraph 0 "type" = (.ok b, s) ∧
    b.nameTable = ⟨[(0, "Payment")], "type"⟩ ∧ DistinctClasses paymentGraph b.names := by
  refine ⟨_, _, rfl, rfl, ?_⟩
  unfold DistinctClasses
  decide

/-- What is paid by card, with all members that a card has. -/
def cardPayment : List (String × Native) :=
  [("type", .text "Card"), ("number", .text "7"), ("holder", .text "Ada")]

/-- What is paid by voucher. -/
def voucherPayment : List (String × Native) := [("type", .text "Voucher"), ("number", .text "7")]

theorem textKeyed_paymentGraph : ∀ i, (paymentGraph.shape i).TextKeyed paymentGraph :=
  Graph.forall_shape (P := fun x => x.TextKeyed paymentGraph)
    (by simp [paymentGraph, card, voucher, Shape.TextKeyed, Shape.fieldGroups])
    (by simp [Shape.TextKeyed, Shape.fieldGroups])

theorem ofShape_cardPayment : OfShape paymentGraph "type" 0 (.object cardPayment) := by
  refine .data (x := card) rfl rfl (by simp) (.refl _) rfl ?_ ?_
  · intro f hf v hv
    simp only [card, List.mem_cons, List.not_mem_nil, or_false] at hf
    rcases hf with rfl | rfl <;> cases hv <;> exact .scalar rfl ⟨_, rfl⟩
  · intro f hf v _ hr
    simp only [card, List.mem_cons, List.not_mem_nil, or_false] at hf
    rcases hf with rfl | rfl <;> cases hr

theorem ofShape_voucherPayment : OfShape paymentGraph "type" 0 (.object voucherPayment) := by
  refine .data (x := voucher) rfl rfl (by simp) (.refl _) rfl ?_ ?_
  · intro f hf v hv
    obtain rfl := List.mem_singleton.1 hf
    cases hv
    exact .scalar rfl ⟨_, rfl⟩
  · intro f hf v _ hr
    obtain rfl := List.mem_singleton.1 hf
    cases hr

/-- What is written for a card leads to the class of cards, which come first. -/
theorem resolve_written_card : ∃ b s w, buildSchema paymentGraph 0 "type" = (.ok b, s) ∧
    paymentGraph.Below Shape.CodecFree 0 ∧ DistinctClasses paymentGraph b.names ∧
    paymentGraph.Below (Shape.TextKeyed paymentGraph) 0 ∧
    OfShape paymentGraph "type" 0 (.object cardPayment) ∧
    (Converter.mk paymentGraph b.nameTable).write 0 (.object cardPayment) {} = .ok w ∧
    (Cursor.mk w b.schema.target {}).resolve b.schema = .resolved (variantRef "Payment" card) := by
  obtain ⟨b, s, hb, hnames, hclasses⟩ := built_payment
  have hfree : paymentGraph.Below Shape.CodecFree 0 := fun i _ => codecFree_paymentGraph i
  have hkeys : paymentGraph.Below (Shape.TextKeyed paymentGraph) 0 :=
    fun i _ => textKeyed_paymentGraph i
  have htag : Entries.find? cardPayment "type" = some (.text card.name) := rfl
  obtain ⟨hwritten, hresolve⟩ :=
    resolve_written hb hfree hclasses shape_payment rfl List.mem_cons_self htag {}
  obtain ⟨w, hw⟩ := hwritten hkeys ofShape_cardPayment
  obtain ⟨n, hn, hclass⟩ := hresolve w hw
  obtain rfl : "Payment" = n := by
    rw [show b.names = [(0, "Payment")] from congrArg NameTable.names hnames] at hn
    exact Option.some.inj hn
  exact ⟨b, s, w, hb, hfree, hclasses, hkeys, ofShape_cardPayment, hw,
    (hclass {}).2.2 ⟨[], [voucher], rfl, by simp⟩⟩

/-- What is written for a voucher leads to the class of cards as well, although it is well typed and
all names are distinct. -/
theorem resolve_voucher_differs : ∃ b s w, buildSchema paymentGraph 0 "type" = (.ok b, s) ∧
    paymentGraph.Below Shape.CodecFree 0 ∧ DistinctClasses paymentGraph b.names ∧
    ([card, voucher].map (·.rendered)).Nodup ∧
    OfShape paymentGraph "type" 0 (.object voucherPayment) ∧
    (Converter.mk paymentGraph b.nameTable).write 0 (.object voucherPayment) {} = .ok w ∧
    (Cursor.mk w b.schema.target {}).resolve b.schema = .resolved (variantRef "Payment" card) ∧
    (Cursor.mk w b.schema.target {}).resolve b.schema ≠ .resolved (variantRef "Payment" voucher) := by
  obtain ⟨b, s, hb, hnames, hclasses⟩ := built_payment
  have hfree : paymentGraph.Below Shape.CodecFree 0 := fun i _ => codecFree_paymentGraph i
  obtain ⟨w, hw⟩ := write_of_shape hb
    (fun i _ => ⟨codecFree_paymentGraph i, textKeyed_paymentGraph i⟩) hclasses
    ofShape_voucherPayment {}
  obtain ⟨n, y, hn, hy, hresolve⟩ := resolve_of_write hb hfree hclasses shape_payment rfl
    (List.mem_cons_of_mem _ List.mem_cons_self) rfl hw
  obtain rfl : "Payment" = n := by
    rw [show b.names = [(0, "Payment")] from congrArg NameTable.names hnames] at hn
    exact Option.some.inj hn
  obtain rfl : card = y := Option.some.inj hy
  refine ⟨b, s, w, hb, hfree, hclasses, by decide, ofShape_voucherPayment, hw, hresolve {}, ?_⟩
  rw [hresolve]
  intro h
  have hname := (Ty.classRef.inj (Resolution.resolved.inj h)).1
  exact absurd hname (by decide)

end Converter

end ShapeSchema
