import ShapeSchema.Convert.Read
import ShapeSchema.Proofs.Convert.Writing
import ShapeSchema.Proofs.Shape.Inhabits

/-!
# What reading gives

One lemma for each step of the reader, as for the writer: `read_list_ok` and its kin say when a
value is read at a shape and as what, in terms of its parts. The lemmas after them say what is read
for values in the form in which the writer emits them.
-/

namespace ShapeSchema.Converter

variable {c : Converter} {id sid : ShapeId} {path : Path} {v : Value}

/-! ## Lists -/

/-- Some items are read one by one. -/
def ReadsItems (f : Value → Path → Except Fault Native) (path : Path) (ws : List Value)
    (ns : List Native) : Prop :=
  List.Forall₂ (fun p n => f p.1 (path.index p.2) = .ok n) ws.zipIdx ns

theorem listItems_ok {kind : Collection} {inner : ShapeId}
    {p : { items : List Value // v.items? = some items }} :
    c.listItems kind inner v path = .ok p ↔ kind.FitsLength p.val.length := by
  obtain ⟨items, h⟩ := p
  cases v <;> try cases h
  cases kind with
  | array | set =>
    refine ⟨fun _ m hm => ?_, fun _ => rfl⟩
    cases hm
  | fixed n =>
    by_cases hlen : (items.length : Int) = n
    · refine ⟨fun _ m hm => ?_, fun _ => if_pos hlen⟩
      cases hm
      exact hlen
    · refine ⟨fun h => ?_, fun h => absurd (h n rfl) hlen⟩
      cases (if_neg hlen).symm.trans h

/-- A list is read if it has the right length and its items are read. -/
theorem items_ok {f : Value → Path → Except Fault Native} {kind : Collection} {inner : ShapeId}
    {n : Native} :
    (do
      let ⟨items, _⟩ ← c.listItems kind inner v path
      collect kind <$> items.attach.zipIdx.mapM fun (p : { x // x ∈ items } × Nat) =>
        f p.1.val (path.index p.2)) = .ok n ↔
    ∃ items ns, v.items? = some items ∧ kind.FitsLength items.length ∧
      ReadsItems f path items ns ∧ n = collect kind ns := by
  rw [ok_bind]
  constructor
  · rintro ⟨⟨items, hitems⟩, hlen, hrun⟩
    obtain ⟨ns, hns, rfl⟩ := ok_map.1 hrun
    exact ⟨items, ns, hitems, listItems_ok.1 hlen,
      (ok_mapM_attach_zipIdx fun _ _ => .rfl).1 hns, rfl⟩
  · rintro ⟨items, ns, hitems, hlen, hns, rfl⟩
    exact ⟨⟨items, hitems⟩, listItems_ok.2 hlen,
      ok_map.2 ⟨ns, (ok_mapM_attach_zipIdx fun _ _ => .rfl).2 hns, rfl⟩⟩

/-- A medium is read at no shape. -/
theorem read_media_ne_ok {m : Media} {n : Native} : c.read id (.media m) path ≠ .ok n := by
  rw [read]
  exact error_ne_ok

theorem read_list_ok {kind : Collection} {inner : ShapeId} {n : Native}
    (hl : c.graph.land v.isNull id = .shape sid (.list kind inner)) :
    c.read id v path = .ok n ↔ ∃ items ns, v.items? = some items ∧
      kind.FitsLength items.length ∧ ReadsItems (c.read inner) path items ns ∧
      n = collect kind ns := by
  by_cases hm : ∃ m, v = .media m
  · obtain ⟨m, rfl⟩ := hm
    refine iff_of_false read_media_ne_ok ?_
    rintro ⟨_, _, ⟨⟩, _⟩
  rw [read]
  · rw [hl]
    exact items_ok
  · exact fun m h => hm ⟨m, h⟩

theorem readInts_list_ok {repr : IntRepr} {kind : Collection} {inner : ShapeId} {n : Native}
    (hl : c.graph.land v.isNull id = .shape sid (.list kind inner)) :
    c.readInts repr id v path = .ok n ↔ ∃ items ns, v.items? = some items ∧
      kind.FitsLength items.length ∧ ReadsItems (c.readInts repr inner) path items ns ∧
      n = collect kind ns := by
  rw [readInts, hl]
  exact items_ok

theorem readKeyed_list_ok {repr : KeyRepr} {ctx : FieldContext} {kind : Collection}
    {inner : ShapeId} {n : Native}
    (hl : c.graph.land v.isNull id = .shape sid (.list kind inner)) :
    c.readKeyed repr ctx id v path = .ok n ↔ ∃ items ns, v.items? = some items ∧
      kind.FitsLength items.length ∧ ReadsItems (c.readKeyed repr ctx inner) path items ns ∧
      n = collect kind ns := by
  rw [readKeyed, hl]
  exact items_ok

/-! ## Scalars -/

theorem read_scalar {s : Scalar} {w : Value} {n : Native}
    (hl : c.graph.land w.isNull id = .shape sid (.scalar s)) (h : readScalar s w path = .ok n) :
    c.read id w path = .ok n := by
  rw [read]
  · rw [hl]
    exact h
  · rintro m rfl
    cases s <;> cases h

theorem readScalar_of_read {s : Scalar} {n : Native}
    (hl : c.graph.land v.isNull id = .shape sid (.scalar s)) (h : c.read id v path = .ok n) :
    readScalar s v path = .ok n := by
  cases v with
  | media m =>
    rw [read] at h
    cases h
  | _ =>
    rw [read] at h
    · rwa [hl] at h
    · rintro _ ⟨⟩

theorem readInts_scalar {repr : IntRepr} {s : Scalar} {w : Value}
    (hl : c.graph.land w.isNull id = .shape sid (.scalar s)) :
    c.readInts repr id w path = readIntAs repr s w path := by
  rw [readInts, hl]

/-! ## Maps -/

theorem read_map_ok {kind : Keyed} {key value : ShapeId} {n : Native}
    (hl : c.graph.land v.isNull id = .shape sid (.map kind key value)) :
    c.read id v path = .ok n ↔ ∃ es ns, v.entries? = some es ∧
      List.Forall₂ (fun p n => n.1 = .text p.1 ∧ c.read value p.2 (path.key p.1) = .ok n.2)
        es ns ∧ n = collectEntries kind ns := by
  by_cases hm : ∃ m, v = .media m
  · obtain ⟨m, rfl⟩ := hm
    refine iff_of_false read_media_ne_ok ?_
    rintro ⟨_, _, ⟨⟩, _⟩
  rw [read]
  · rw [hl]
    simp only
    split
    · next h => exact no_parts h
    next h =>
    refine ok_parts h fun ns => ok_mapM_attach ?_
    rintro ⟨⟨k, x⟩, hx⟩ ⟨k', y⟩
    rw [ok_bind]
    constructor
    · rintro ⟨z, hz, hp⟩
      cases hp
      exact ⟨rfl, hz⟩
    · rintro ⟨rfl, hy⟩
      exact ⟨y, hy, rfl⟩
  · exact fun m h => hm ⟨m, h⟩

theorem readKeyed_text_ok {ctx : FieldContext} {kind : Keyed} {key value : ShapeId} {n : Native}
    (hl : c.graph.land v.isNull id = .shape sid (.map kind key value)) :
    c.readKeyed .text ctx id v path = .ok n ↔ ∃ es ns, v.entries? = some es ∧
      List.Forall₂ (fun p n => c.readKey key p.1 (path.key p.1) = .ok n.1 ∧
        c.read value p.2 (path.key p.1) = .ok n.2) es ns ∧ n = collectEntries kind ns := by
  rw [readKeyed, hl]
  simp only
  split
  · next h => exact no_parts h
  · next h =>
    refine ok_parts h fun ns => ok_mapM_attach ?_
    rintro ⟨⟨k, x⟩, hx⟩ ⟨k', y⟩
    simp only [ok_bind]
    constructor
    · rintro ⟨_, hk, _, hy, hp⟩
      cases hp
      exact ⟨hk, hy⟩
    · rintro ⟨hk, hy⟩
      exact ⟨_, hk, _, hy, rfl⟩

/-- The key and value of an entry are read. -/
def ReadsPair (c : Converter) (key value : ShapeId) (here : Path) (v : Value)
    (n : Native × Native) : Prop :=
  ∃ es k x, v.entries? = some es ∧ Entries.find? es "key" = some k ∧
    Entries.find? es "value" = some x ∧ c.read key k (here.field "key") = .ok n.1 ∧
    c.read value x (here.field "value") = .ok n.2

theorem readKeyed_pairs_ok {ctx : FieldContext} {kind : Keyed} {key value : ShapeId} {n : Native}
    (hl : c.graph.land v.isNull id = .shape sid (.map kind key value)) :
    c.readKeyed .pairs ctx id v path = .ok n ↔ ∃ items ns, v.items? = some items ∧
      List.Forall₂ (fun p n => c.ReadsPair key value (path.index p.2) p.1 n) items.zipIdx ns ∧
      n = collectEntries kind ns := by
  rw [readKeyed, hl]
  simp only
  split
  · next h => exact no_parts h
  next h =>
  refine ok_parts h fun ns => ok_mapM_attach_zipIdx ?_
  rintro ⟨⟨w, hw⟩, i⟩ ⟨nk, nx⟩
  simp only
  split
  · next hnone =>
    refine iff_of_false error_ne_ok ?_
    rintro ⟨es, k, x, hes, -⟩
    rw [hnone] at hes
    cases hes
  next es hes =>
  split
  · next hnone =>
    refine iff_of_false error_ne_ok ?_
    rintro ⟨es', k, x, hes', hk, -⟩
    obtain rfl := Option.some.inj (hes.symm.trans hes')
    rw [hnone] at hk
    cases hk
  · next hnone =>
    refine iff_of_false error_ne_ok ?_
    rintro ⟨es', k, x, hes', -, hx, -⟩
    obtain rfl := Option.some.inj (hes.symm.trans hes')
    rw [hnone] at hx
    cases hx
  next k x hk hx =>
  simp only [ok_bind]
  constructor
  · rintro ⟨_, hnk, _, hnx, hp⟩
    cases hp
    exact ⟨es, k, x, hes, hk, hx, hnk, hnx⟩
  · rintro ⟨es', k', x', hes', hk', hx', hnk, hnx⟩
    obtain rfl := Option.some.inj (hes.symm.trans hes')
    obtain rfl := Option.some.inj (hk.symm.trans hk')
    obtain rfl := Option.some.inj (hx.symm.trans hx')
    exact ⟨nk, hnk, nx, hnx, rfl⟩

theorem readKeyed_other {repr : KeyRepr} {ctx : FieldContext} {s : Shape} {w : Value}
    (hl : c.graph.land w.isNull id = .shape sid s)
    (hs : s.isDeclared = true ∨ ∃ x, s = .scalar x) :
    c.readKeyed repr ctx id w path = c.read sid w path := by
  rw [readKeyed, hl]
  rcases hs with hs | ⟨x, rfl⟩
  · cases s <;> first | rfl | cases hs
  · rfl

theorem readField_plain {f : Field} {ctx : FieldContext}
    (h : f.codec = none ∧ f.intRepr = none ∧ f.keyRepr = none) (hv : v.isNull = false) :
    c.readField f ctx v path = c.read f.shape v path := by
  rw [readField, h.1, hv, h.2.1, h.2.2]
  rfl

theorem readField_keyed {f : Field} {ctx : FieldContext} {repr : KeyRepr}
    (h : f.codec = none ∧ f.intRepr = none ∧ f.keyRepr = some repr) (hv : v.isNull = false) :
    c.readField f ctx v path = c.readKeyed repr ctx f.shape v path := by
  rw [readField, h.1, hv, h.2.1, h.2.2]
  rfl

/-! ## Structs and enums -/

/-- The value of a field that is read from the entries of a value: its default if it is skipped, or
missing or null and has one, a null if it is missing and may be, else what is found. -/
inductive ReadsMember (c : Converter) (owner : String) (variant : Option Variant)
    (es : List (String × Value)) (path : Path) (f : Field) : Native → Prop where
  | filled {n : Native} :
      f.skip = true ∨ (f.default.isSome = true ∧ ∀ x, f.lookup? es = some x → x.isNull = true) →
      c.graph.fieldDefault f (path.field f.name) = .ok n →
      ReadsMember c owner variant es path f n
  | missing : f.skip = false → f.default = none → f.lookup? es = none →
      f.codec = none → c.graph.isOption f.shape = true →
      ReadsMember c owner variant es path f .null
  | found {x : Value} {n : Native} : f.skip = false → f.lookup? es = some x →
      (x.isNull = true → f.default = none) →
      c.readField f (ownerContext owner variant f) x (path.field f.name) = .ok n →
      ReadsMember c owner variant es path f n

section
variable {owner : String} {variant : Option Variant} {es : List (String × Value)} {f : Field}
  {n : Native}

theorem readsMember_filled (h : f.skip = true ∨
    (f.default.isSome = true ∧ ∀ x, f.lookup? es = some x → x.isNull = true)) :
    c.ReadsMember owner variant es path f n ↔
      c.graph.fieldDefault f (path.field f.name) = .ok n := by
  refine ⟨fun hm => ?_, .filled h⟩
  cases hm with
  | filled _ hn => exact hn
  | missing hskip hdefault =>
    rw [hskip, hdefault] at h
    simp at h
  | found hskip hx hnull =>
    obtain ⟨hdefault, hall⟩ := h.resolve_left (by rw [hskip]; exact Bool.false_ne_true)
    rw [hnull (hall _ hx)] at hdefault
    cases hdefault

theorem readsMember_missing (hskip : f.skip = false) (hdefault : f.default = none)
    (hlookup : f.lookup? es = none) : c.ReadsMember owner variant es path f n ↔
      (f.codec = none ∧ c.graph.isOption f.shape = true) ∧ n = .null := by
  constructor
  · intro hm
    cases hm with
    | filled h =>
      rw [hskip, hdefault] at h
      simp at h
    | missing _ _ _ hcodec hopt => exact ⟨⟨hcodec, hopt⟩, rfl⟩
    | found _ hx => cases hlookup.symm.trans hx
  · rintro ⟨⟨hcodec, hopt⟩, rfl⟩
    exact .missing hskip hdefault hlookup hcodec hopt

theorem readsMember_found {x : Value} (hskip : f.skip = false) (hlookup : f.lookup? es = some x)
    (hnull : x.isNull = true → f.default = none) : c.ReadsMember owner variant es path f n ↔
      c.readField f (ownerContext owner variant f) x (path.field f.name) = .ok n := by
  refine ⟨fun hm => ?_, .found hskip hlookup hnull⟩
  cases hm with
  | filled h =>
    obtain ⟨hdefault, hall⟩ := h.resolve_left (by rw [hskip]; exact Bool.false_ne_true)
    rw [hnull (hall _ hlookup)] at hdefault
    cases hdefault
  | missing _ _ hnone => cases hnone.symm.trans hlookup
  | found _ hx _ hn =>
    obtain rfl := Option.some.inj (hlookup.symm.trans hx)
    exact hn

theorem ok_named {name k : String} {run : Except Fault Native} :
    (do return (name, ← run)) = Except.ok (k, n) ↔ k = name ∧ run = .ok n := by
  rw [ok_bind]
  constructor
  · rintro ⟨m, hm, hp⟩
    cases hp
    exact ⟨rfl, hm⟩
  · rintro ⟨rfl, hn⟩
    exact ⟨n, hn, rfl⟩

end

theorem readFields_ok {owner : String} {variant : Option Variant} {fields : List Field}
    {es : List (String × Value)} {hv : v.entries? = some es} {ns : List (String × Native)} :
    c.readFields owner variant fields v es hv path = .ok ns ↔
      List.Forall₂ (fun f n => n.1 = f.name ∧ c.ReadsMember owner variant es path f n.2)
        fields ns := by
  rw [readFields, ok_mapM]
  refine iff_of_eq (congrArg (List.Forall₂ · fields ns) (funext₂ fun f p => propext ?_))
  obtain ⟨k, n⟩ := p
  cases hskip : f.skip with
  | true =>
    rw [readsMember_filled (.inl hskip)]
    exact ok_named
  | false =>
  simp only [Bool.false_eq_true, if_false]
  split
  · next hlookup =>
    cases hd : f.default with
    | some d =>
      rw [readsMember_filled (.inr ⟨by rw [hd]; rfl, by simp [hlookup]⟩)]
      exact ok_named
    | none =>
      rw [readsMember_missing hskip hd hlookup]
      simp only [Option.isSome_none, Bool.false_eq_true, if_false]
      split
      · next hopt =>
        rw [Bool.and_eq_true, Option.isNone_iff_eq_none] at hopt
        constructor
        · intro hp
          cases hp
          exact ⟨rfl, hopt, rfl⟩
        · rintro ⟨rfl, -, rfl⟩
          rfl
      · next hopt =>
        rw [Bool.and_eq_true, Option.isNone_iff_eq_none] at hopt
        exact iff_of_false error_ne_ok fun h => hopt h.2.1
  · next x hlookup =>
    split
    · next hnull =>
      rw [Bool.and_eq_true] at hnull
      rw [readsMember_filled (.inr ⟨hnull.2, by simp [hlookup, hnull.1]⟩)]
      exact ok_named
    · next hnull =>
      rw [readsMember_found hskip hlookup (fun h => by simpa [h] using hnull)]
      exact ok_named

theorem read_struct_ok {d : Declared} {fields : List Field} {n : Native}
    (hl : c.graph.land v.isNull id = .shape sid (.struct d fields)) :
    c.read id v path = .ok n ↔ ∃ es ns, v.entries? = some es ∧
      List.Forall₂ (fun f n => n.1 = f.name ∧
        c.ReadsMember (c.names.internalName sid d) none es path f n.2) fields ns ∧
      n = .record ns := by
  by_cases hm : ∃ m, v = .media m
  · obtain ⟨m, rfl⟩ := hm
    refine iff_of_false read_media_ne_ok ?_
    rintro ⟨_, _, ⟨⟩, _⟩
  rw [read]
  · rw [hl]
    simp only
    split
    · next h => exact no_parts h
    · next h => exact ok_parts h fun ns => readFields_ok
  · exact fun m h => hm ⟨m, h⟩

theorem mem_of_match? {vs : List Variant} {name : String} {x : Variant}
    (h : Variant.match? vs name = some x) : x ∈ vs := by
  unfold Variant.match? at h
  rcases Option.or_eq_some_iff.1 h with h | ⟨-, h⟩
  · exact List.mem_of_find?_eq_some h
  rcases Option.or_eq_some_iff.1 h with h | ⟨-, h⟩
  · exact List.mem_of_find?_eq_some h
  · exact List.mem_of_find?_eq_some h

theorem read_texts_ok {d : Declared} {tag : Option String} {asUnion : Bool}
    {variants : List Variant} {n : Native}
    (hl : c.graph.land v.isNull id = .shape sid (.enum d tag asUnion variants))
    (hdata : isDataEnum variants = false) :
    c.read id v path = .ok n ↔ ∃ name x, v.variantName? = some name ∧
      Variant.match? variants name = some x ∧ n = .text x.name := by
  by_cases hm : ∃ m, v = .media m
  · obtain ⟨m, rfl⟩ := hm
    refine iff_of_false read_media_ne_ok ?_
    rintro ⟨_, _, ⟨⟩, _⟩
  rw [read]
  · rw [hl]
    simp only [hdata, Bool.false_eq_true, if_false]
    split
    · next h => exact no_parts h
    next name h =>
    split
    · next hx =>
      refine iff_of_false error_ne_ok ?_
      rintro ⟨name', x, hname, hx', -⟩
      obtain rfl := Option.some.inj (h.symm.trans hname)
      cases hx.symm.trans hx'
    · next x hx =>
      constructor
      · intro hp
        cases hp
        exact ⟨name, x, h, hx, rfl⟩
      · rintro ⟨name', x', hname, hx', rfl⟩
        obtain rfl := Option.some.inj (h.symm.trans hname)
        obtain rfl := Option.some.inj (hx.symm.trans hx')
        rfl
  · exact fun m h => hm ⟨m, h⟩

theorem read_data_ok {d : Declared} {tag : Option String} {asUnion : Bool}
    {variants : List Variant} {n : Native}
    (hl : c.graph.land v.isNull id = .shape sid (.enum d tag asUnion variants))
    (hdata : isDataEnum variants = true) :
    c.read id v path = .ok n ↔ ∃ es t x ns, v.entries? = some es ∧
      Entries.find? es (tag.getD c.names.tagField) = some t ∧
      t.variantName?.bind (Variant.match? variants) = some x ∧
      List.Forall₂ (fun f n => n.1 = f.name ∧
        c.ReadsMember (c.names.internalName sid d) (some x) es path f n.2) x.fields ns ∧
      n = .record ((tag.getD c.names.tagField, .text x.name) :: ns) := by
  by_cases hm : ∃ m, v = .media m
  · obtain ⟨m, rfl⟩ := hm
    refine iff_of_false read_media_ne_ok ?_
    rintro ⟨_, _, _, _, ⟨⟩, _⟩
  rw [read]
  · rw [hl]
    simp only [hdata, if_true]
    split
    · next hnone =>
      refine iff_of_false error_ne_ok ?_
      rintro ⟨es, t, x, ns, hes, -⟩
      cases hnone.symm.trans hes
    next es hes =>
    split
    · next hnone =>
      refine iff_of_false error_ne_ok ?_
      rintro ⟨es', t, x, ns, hes', ht, -⟩
      obtain rfl := Option.some.inj (hes.symm.trans hes')
      cases hnone.symm.trans ht
    next t ht =>
    split
    · next hnone =>
      refine iff_of_false error_ne_ok ?_
      rintro ⟨es', t', x, ns, hes', ht', hx, -⟩
      obtain rfl := Option.some.inj (hes.symm.trans hes')
      obtain rfl := Option.some.inj (ht.symm.trans ht')
      cases hnone.symm.trans hx
    next x hx =>
    rw [ok_bind]
    constructor
    · rintro ⟨ns, hns, hp⟩
      cases hp
      exact ⟨es, t, x, ns, hes, ht, hx, readFields_ok.1 hns, rfl⟩
    · rintro ⟨es', t', x', ns, hes', ht', hx', hns, rfl⟩
      obtain rfl := Option.some.inj (hes.symm.trans hes')
      obtain rfl := Option.some.inj (ht.symm.trans ht')
      obtain rfl := Option.some.inj (hx.symm.trans hx')
      exact ⟨ns, readFields_ok.2 hns, rfl⟩
  · exact fun m h => hm ⟨m, h⟩

/-! ## Values as the writer emits them -/

section
variable {ws : List Value} {es : List (String × Value)}

theorem readInts_list {repr : IntRepr} {kind : Collection} {inner : ShapeId} {ns : List Native}
    (hl : c.graph.land false id = .shape sid (.list kind inner)) (hlen : kind.FitsLength ws.length)
    (h : ReadsItems (c.readInts repr inner) path ws ns) :
    c.readInts repr id (.list ws) path = .ok (collect kind ns) :=
  (readInts_list_ok hl).2 ⟨ws, ns, rfl, hlen, h, rfl⟩

theorem read_texts {d : Declared} {tag : Option String} {asUnion : Bool} {variants : List Variant}
    {w : Value} {name : String} {x : Variant}
    (hl : c.graph.land false id = .shape sid (.enum d tag asUnion variants))
    (hdata : isDataEnum variants = false) (hw : w.variantName? = some name)
    (hx : Variant.match? variants name = some x) : c.read id w path = .ok (.text x.name) := by
  have hnull : w.isNull = false := by
    cases w <;> first | rfl | cases hw
  exact (read_texts_ok (by rw [hnull]; exact hl) hdata).2 ⟨name, x, hw, hx, rfl⟩

end

end ShapeSchema.Converter
