import ShapeSchema.Proofs.Convert.Reading
import ShapeSchema.Proofs.Native.Merged

/-!
# Entries of maps that are written in another way

A field may write its maps under the texts of their keys, or as pairs. Reading them back turns the
keys into native values and sets them in a map one after the other, and nobody asks whether a key is
there already: several texts stand for one whole number, several names for one variant. So a map is
read with one entry for each key that its own keys stand for, which are as many as it has itself
exactly if no two stand for the same (`readField_entries`).
-/

namespace ShapeSchema

open Native

/-! ## Entries as they are collected -/

/-- No two entries have the same key in a map, or the same text in a plain object. -/
def Keyed.Apart (kind : Keyed) (ks : List (Native × Native)) : Prop :=
  match kind with
  | .map => Native.Apart ks
  | .object => (ks.map fun p => memberName p.1).Nodup

namespace Converter

variable {ks : List (Native × Native)}

theorem apart_of_nodup (h : (ks.map fun p => memberName p.1).Nodup) : Native.Apart ks := by
  refine (List.pairwise_map.1 h).imp fun {p q} hne => ?_
  refine Bool.eq_false_iff.2 fun hsame => hne ?_
  unfold memberName
  rw [spoken?_of_sameKey hsame]

theorem memberName_storedKey (k : Native) : memberName (storedKey k) = memberName k := by
  unfold memberName
  rw [spoken?_storedKey]

/-- The members of the plain object that is made from entries. -/
def membersOf (ks : List (Native × Native)) : List (String × Native) :=
  (setEntries ks).map fun p => (memberName p.1, p.2)

theorem keys_membersOf (h : Native.Apart ks) :
    Entries.keys (membersOf ks) = ks.map fun p => memberName p.1 := by
  unfold membersOf Entries.keys
  rw [setEntries_of_apart h, List.map_map, List.map_map]
  exact List.map_congr_left fun p _ => memberName_storedKey p.1

theorem length_membersOf (ks : List (Native × Native)) :
    (Entries.ofList (membersOf ks)).length ≤ ks.length ∧
    ((Entries.ofList (membersOf ks)).length = ks.length ↔ Keyed.object.Apart ks) := by
  obtain ⟨hle, hiff⟩ := Entries.length_ofList (membersOf ks)
  obtain ⟨hset, happart⟩ := length_setEntries ks
  have hlen : (membersOf ks).length = (setEntries ks).length := List.length_map _
  refine ⟨by omega, fun h => ?_, fun h => ?_⟩
  · have hks := happart.1 (by omega)
    have hnodup := hiff.1 (by omega)
    rwa [keys_membersOf hks] at hnodup
  · have hks := apart_of_nodup h
    rw [hiff.2 (by rw [keys_membersOf hks]; exact h), hlen, happart.2 hks]

/-- Of texts nothing is lost but what a map loses. -/
theorem membersOf_of_texts (h : ∀ p ∈ ks, ∃ t, p.1 = .text t) :
    (Entries.ofList (membersOf ks)).map (fun p => (Native.text p.1, p.2)) = setEntries ks := by
  have htexts : ∀ p ∈ setEntries ks, Native.text (memberName p.1) = p.1 := by
    intro p hp
    obtain ⟨q, hq, hk⟩ := mem_setEntries p hp
    obtain ⟨t, ht⟩ := h q hq
    rw [hk, ht]
    rfl
  have hnodup : (Entries.keys (membersOf ks)).Nodup := by
    unfold Entries.keys membersOf
    rw [List.map_map]
    refine List.pairwise_map.2 ((apart_setEntries ks).imp_of_mem fun {p q} hp hq hne => ?_)
    rw [← htexts p hp, ← htexts q hq] at hne
    exact beq_eq_false_iff_ne.1 hne
  rw [Entries.ofList_of_nodup hnodup, membersOf, List.map_map]
  refine (List.map_congr_left (g := id) fun p hp => ?_).trans (List.map_id _)
  exact Prod.ext (htexts p hp) rfl

/-- What is collected from entries has one entry for each of their keys, and as many as there are
exactly if the keys are apart. The value is the one that came last. -/
theorem entries?_collectEntries (kind : Keyed) (ks : List (Native × Native)) :
    ∃ es, (collectEntries kind ks).entries? = some es ∧ Native.Apart es ∧
      es.length ≤ ks.length ∧ (es.length = ks.length ↔ kind.Apart ks) ∧
      ((kind = .object → ∀ p ∈ ks, ∃ t, p.1 = .text t) →
        ∀ key, valueAt? es key = valueAt? ks.reverse key) := by
  cases kind with
  | map =>
    obtain ⟨hle, hiff⟩ := length_setEntries ks
    exact ⟨_, rfl, apart_setEntries ks, hle, hiff, fun _ => valueAt?_setEntries ks⟩
  | object =>
    obtain ⟨es, hes, hperm⟩ := entries?_record (membersOf ks)
    obtain ⟨hle, hiff⟩ := length_membersOf ks
    have hlen : es.length = (Entries.ofList (membersOf ks)).length :=
      hperm.length_eq.trans (List.length_map _)
    have hapart : Native.Apart es := (apart_texts (Entries.nodup_ofList _)).perm hperm.symm
    refine ⟨es, hes, hapart, hlen ▸ hle, hlen ▸ hiff, fun htexts key => ?_⟩
    rw [valueAt?_eq_of_perm hperm hapart, membersOf_of_texts (htexts rfl), valueAt?_setEntries]

/-! ## Maps below a field -/

/-- Options, pointers and lists lead from a value of a shape to a value that is to be read as a map,
which stands at a path of its own. -/
inductive LeadsToMap (g : Graph) (kind : Keyed) (key value : ShapeId) (w : Value) (here : Path) :
    ShapeId → Value → Path → Prop where
  | here {id sid : ShapeId} :
      g.land w.isNull id = .shape sid (.map kind key value) →
      LeadsToMap g kind key value w here id w here
  | item {id sid inner : ShapeId} {collection : Collection} {v x : Value} {items : List Value}
      {i : Nat} {path : Path} :
      g.land v.isNull id = .shape sid (.list collection inner) → v.items? = some items →
      items[i]? = some x → LeadsToMap g kind key value w here inner x (path.index i) →
      LeadsToMap g kind key value w here id v path

/-- The keys and values of a map's entries are read one by one, in the way the field chose. -/
def ReadsEntries (c : Converter) (repr : KeyRepr) (key value : ShapeId) (w : Value) (here : Path)
    (ks : List (Native × Native)) : Prop :=
  match repr with
  | .text => ∃ es, w.entries? = some es ∧
      List.Forall₂ (fun p n => c.readKey key p.1 (here.key p.1) = .ok n.1 ∧
        c.read value p.2 (here.key p.1) = .ok n.2) es ks
  | .pairs => ∃ items, w.items? = some items ∧
      List.Forall₂ (fun p n => c.ReadsPair key value (here.index p.2) p.1 n) items.zipIdx ks

/-- How many entries the written form of a map has. -/
def entryCount? (repr : KeyRepr) (w : Value) : Option Nat :=
  match repr with
  | .text => w.entries?.map List.length
  | .pairs => w.items?.map List.length

variable {c : Converter} {repr : KeyRepr} {kind : Keyed} {key value : ShapeId} {w : Value}
  {here : Path}

theorem entryCount?_of_readsEntries (h : c.ReadsEntries repr key value w here ks) :
    entryCount? repr w = some ks.length := by
  cases repr with
  | text =>
    obtain ⟨es, hes, hks⟩ := h
    rw [entryCount?, hes, ← hks.length_eq]
    rfl
  | pairs =>
    obtain ⟨items, hitems, hks⟩ := h
    rw [entryCount?, hitems, ← hks.length_eq, List.length_zipIdx]
    rfl

theorem readKeyed_map_ok {ctx : FieldContext} {id sid : ShapeId} {n : Native}
    (hl : c.graph.land w.isNull id = .shape sid (.map kind key value)) :
    c.readKeyed repr ctx id w here = .ok n ↔
      ∃ ks, c.ReadsEntries repr key value w here ks ∧ n = collectEntries kind ks := by
  cases repr with
  | text =>
    rw [readKeyed_text_ok hl]
    exact ⟨fun ⟨es, ks, hes, hks, hn⟩ => ⟨ks, ⟨es, hes, hks⟩, hn⟩,
      fun ⟨ks, ⟨es, hes, hks⟩, hn⟩ => ⟨es, ks, hes, hks, hn⟩⟩
  | pairs =>
    rw [readKeyed_pairs_ok hl]
    exact ⟨fun ⟨es, ks, hes, hks, hn⟩ => ⟨ks, ⟨es, hes, hks⟩, hn⟩,
      fun ⟨ks, ⟨es, hes, hks⟩, hn⟩ => ⟨es, ks, hes, hks, hn⟩⟩

/-! ## Containers in sets -/

/-- Arrays, sets, maps and objects are keys of their own, so a set keeps all of them. -/
theorem mem_ofItems {x : Native} (hx : ∀ y, sameKey x y = false) (hstored : storedKey x = x)
    {ns : List Native} (h : x ∈ ns) : ∃ items, (ofItems ns).items? = some items ∧ x ∈ items := by
  refine ⟨_, rfl, ?_⟩
  induction ns using List.reverseRecOn with
  | nil => cases h
  | append_singleton ns v ih =>
    rw [List.foldl_append, List.foldl_cons, List.foldl_nil]
    rcases List.mem_append.1 h with h | h
    · split
      · exact ih h
      · exact List.mem_append_left _ (ih h)
    · obtain rfl := List.mem_singleton.1 h
      rw [if_neg (by simp [hx]), hstored]
      exact List.mem_append_right _ List.mem_cons_self

theorem ownKey_of_parts {x : Native} (h : x.entries?.isSome = true ∨ x.items?.isSome = true) :
    (∀ y, sameKey x y = false) ∧ storedKey x = x := by
  cases x with
  | array | set | map | object => exact ⟨fun _ => rfl, rfl⟩
  | _ => rcases h with h | h <;> cases h

/-- What lies in an item that holds a map lies in the list that is collected. -/
theorem within_collect {collection : Collection} {ns : List Native} {m x : Native} (hx : x ∈ ns)
    (hm : m.entries?.isSome = true) (hwithin : m.Within x) : m.Within (collect collection ns) := by
  have hparts : x.entries?.isSome = true ∨ x.items?.isSome = true := by
    cases hwithin with
    | self => exact .inl hm
    | item hitems => exact .inr (by rw [hitems]; rfl)
  cases collection with
  | set =>
    obtain ⟨hown, hstored⟩ := ownKey_of_parts hparts
    obtain ⟨items, hitems, hmem⟩ := mem_ofItems hown hstored hx
    exact .item hitems hmem hwithin
  | array | fixed => exact .item rfl hx hwithin

/-- Wherever a map is to be read, it is read and stands in what is read in all. -/
theorem LeadsToMap.read {ctx : FieldContext} {id : ShapeId} {v : Value} {path : Path} {n : Native}
    (h : LeadsToMap c.graph kind key value w here id v path)
    (hread : c.readKeyed repr ctx id v path = .ok n) :
    ∃ ks, c.ReadsEntries repr key value w here ks ∧ (collectEntries kind ks).Within n := by
  induction h generalizing n with
  | here hl =>
    obtain ⟨ks, hks, rfl⟩ := (readKeyed_map_ok hl).1 hread
    exact ⟨ks, hks, .self _⟩
  | @item id sid inner collection v x items i path hl hitems hi _ ih =>
    obtain ⟨items', ns, hitems', -, hns, rfl⟩ := (readKeyed_list_ok hl).1 hread
    obtain rfl := Option.some.inj (hitems.symm.trans hitems')
    have hat : (x, i) ∈ items.zipIdx := List.mk_mem_zipIdx_iff_getElem?.2 hi
    obtain ⟨y, hy, hxy⟩ := exists_of_forall₂ hns.flip hat
    obtain ⟨ks, hks, hwithin⟩ := ih hxy
    obtain ⟨es, hes, -⟩ := entries?_collectEntries kind ks
    exact ⟨ks, hks, within_collect hy (by rw [hes]; rfl) hwithin⟩

/-! ## Keys that stand for themselves -/

/-- Texts, characters and truth values, whose texts stand for nothing else. -/
def selfSpelled (s : Scalar) : Prop := s = .string ∨ s = .char ∨ s = .bool

theorem memberName_of_readKey {s : Scalar} {t : String} {k : Native} {path : Path}
    (hkey : c.graph.unwrap key = .scalar s) (hs : selfSpelled s)
    (h : c.readKey key t path = .ok k) : memberName k = t := by
  unfold readKey at h
  rw [hkey] at h
  rcases hs with rfl | rfl | rfl
  · cases h
    rfl
  · simp only at h
    split at h
    · cases h
      rfl
    · cases h
  · simp only at h
    split at h
    · next ht =>
      cases h
      exact ht.symm
    split at h
    · next ht =>
      cases h
      exact ht.symm
    · cases h

theorem apart_of_selfSpelled {s : Scalar} (hkey : c.graph.unwrap key = .scalar s)
    (hs : selfSpelled s) (hw : ∀ es, w.entries? = some es → (Entries.keys es).Nodup)
    (h : c.ReadsEntries .text key value w here ks) : kind.Apart ks := by
  obtain ⟨es, hes, hks⟩ := h
  have hnames : ks.map (fun p => memberName p.1) = es.map Prod.fst :=
    map_eq_of_forall₂ (hks.imp fun _ _ hp => memberName_of_readKey hkey hs hp.1)
  have hnodup : (ks.map fun p => memberName p.1).Nodup := hnames ▸ hw es hes
  cases kind with
  | map => exact apart_of_nodup hnodup
  | object => exact hnodup

/-! ## The main result -/

/-- Wherever a field that writes its maps in another way comes to a map, under whichever options,
pointers and lists, the map is read with one entry for each key that its keys are read as. It has as
many entries as the written map exactly if these keys are apart, and never more; the value of an
entry is the one that came last. Under the texts of texts, characters or truth values no entry is
ever lost. -/
theorem readField_entries {f : Field} {ctx : FieldContext} {v : Value} {path : Path} {n : Native}
    (hcodec : f.codec = none) (hint : f.intRepr = none) (hrepr : f.keyRepr = some repr)
    (hread : c.readField f ctx v path = .ok n)
    (hleads : LeadsToMap c.graph kind key value w here f.shape v path) :
    ∃ (ks : List (Native × Native)) (m : Native) (es : List (Native × Native)),
      c.ReadsEntries repr key value w here ks ∧ m.Within n ∧ m.entries? = some es ∧
      entryCount? repr w = some ks.length ∧ es.length ≤ ks.length ∧
      (es.length = ks.length ↔ kind.Apart ks) ∧ Native.Apart es ∧
      ((kind = .object → ∀ p ∈ ks, ∃ t, p.1 = .text t) →
        ∀ k, valueAt? es k = valueAt? ks.reverse k) ∧
      (repr = .text → (∃ s, c.graph.unwrap key = .scalar s ∧ selfSpelled s) →
        (∀ es, w.entries? = some es → (Entries.keys es).Nodup) → es.length = ks.length) := by
  have hkeyed : c.readKeyed repr ctx f.shape v path = .ok n := by
    rw [readField, hcodec, hint, hrepr] at hread
    simp only at hread
    split at hread
    · cases hread
    · exact hread
  obtain ⟨ks, hks, hwithin⟩ := hleads.read hkeyed
  obtain ⟨es, hes, hapart, hle, hiff, hlast⟩ := entries?_collectEntries kind ks
  refine ⟨ks, _, es, hks, hwithin, hes, entryCount?_of_readsEntries hks, hle, hiff, hapart, hlast,
    ?_⟩
  rintro rfl ⟨s, hkey, hs⟩ hw
  exact hiff.2 (apart_of_selfSpelled hkey hs hw hks)

/-- Polls whose rounds may be missing, each with its votes by yes and no. -/
def pollGraph : Graph where
  shapes := #[
    .struct { ident := "Poll" } [{ name := "rounds", shape := 1, keyRepr := some .text }],
    .option 2,
    .list .array 3,
    .map .map 4 5,
    .scalar .bool,
    .scalar .i32]

theorem readField_entries_poll : ∃ b s, buildSchema pollGraph 0 "type" = (.ok b, s) ∧
    ∃ (n : Native) (ks : List (Native × Native)) (m : Native) (es : List (Native × Native)),
      (Converter.mk pollGraph b.nameTable).readField
        { name := "rounds", shape := 1, keyRepr := some .text } ⟨"Poll", "rounds", "rounds", none, none⟩
        (.list [.map [("true", .int 3), ("false", .int 4)]]) .root = .ok n ∧
      (Converter.mk pollGraph b.nameTable).ReadsEntries .text 4 5
        (.map [("true", .int 3), ("false", .int 4)]) (Path.root.index 0) ks ∧
      m.Within n ∧ m.entries? = some es ∧ es.length = 2 := by
  obtain ⟨b, s, hb⟩ : ∃ b s, buildSchema pollGraph 0 "type" = (.ok b, s) := ⟨_, _, rfl⟩
  have hread : (Converter.mk pollGraph b.nameTable).readField
      { name := "rounds", shape := 1, keyRepr := some .text } ⟨"Poll", "rounds", "rounds", none, none⟩
      (.list [.map [("true", .int 3), ("false", .int 4)]]) .root =
      .ok (.array [.map [(.bool true, .ofInt 3), (.bool false, .ofInt 4)]]) := by
    rw [readField_keyed ⟨rfl, rfl, rfl⟩ rfl]
    have hl : pollGraph.land false 1 = .shape 2 (.list .array 3) := rfl
    refine (readKeyed_list_ok hl).2 ⟨_, [.map [(.bool true, .ofInt 3), (.bool false, .ofInt 4)]],
      rfl, nofun, .cons ?_ .nil, rfl⟩
    exact (readKeyed_text_ok rfl).2 ⟨_, [(.bool true, .ofInt 3), (.bool false, .ofInt 4)], rfl,
      .cons ⟨rfl, read_scalar rfl rfl⟩ (.cons ⟨rfl, read_scalar rfl rfl⟩ .nil), rfl⟩
  obtain ⟨ks, m, es, hks, hm, hes, hcount, -, -, -, -, hkept⟩ := readField_entries rfl rfl rfl hread
    (.item (i := 0) rfl rfl rfl (.here rfl))
  have hlen : es.length = ks.length :=
    hkept rfl ⟨.bool, rfl, .inr (.inr rfl)⟩ fun es h => by cases h; decide
  exact ⟨b, s, hb, _, ks, m, es, hread, hks, hm, hes, hlen.trans (Option.some.inj hcount).symm⟩

/-- Hours that are free or not. -/
def hoursGraph : Graph where
  shapes := #[
    .struct { ident := "Shift" } [{ name := "hours", shape := 1, keyRepr := some .text }],
    .map .map 2 3,
    .scalar .u8,
    .scalar .bool]

/-- Two texts that stand for one hour are read without complaint, and one of the two is lost. -/
theorem readField_entries_fails : hoursGraph.Below Shape.CodecFree 0 ∧ ∃ b s,
    buildSchema hoursGraph 0 "type" = (.ok b, s) ∧
    (Converter.mk hoursGraph b.nameTable).read 0
        (.classOf "Shift" [("hours", .map [("7", .bool true), ("07", .bool false)])]) .root =
      .ok (.record [("hours", .map [(.ofInt 7, .bool false)])]) := by
  refine ⟨fun i _ => Graph.forall_shape (by decide) (by decide) i, _, _, rfl, ?_⟩
  have hhours : ∀ names ctx, (Converter.mk hoursGraph names).readField
      { name := "hours", shape := 1, keyRepr := some .text } ctx
      (.map [("7", .bool true), ("07", .bool false)]) (Path.root.field "hours") =
      .ok (.map [(.ofInt 7, .bool false)]) := fun names ctx => by
    rw [readField_keyed ⟨rfl, rfl, rfl⟩ rfl]
    exact (readKeyed_text_ok rfl).2 ⟨_, [(.ofInt 7, .bool true), (.ofInt 7, .bool false)], rfl,
      .cons ⟨rfl, read_scalar rfl rfl⟩ (.cons ⟨rfl, read_scalar rfl rfl⟩ .nil), rfl⟩
  exact (read_struct_ok rfl).2 ⟨_, [("hours", .map [(.ofInt 7, .bool false)])], rfl,
    .cons ⟨rfl, .found rfl rfl (fun _ => rfl) (hhours _ _)⟩ .nil, rfl⟩

end Converter

end ShapeSchema
