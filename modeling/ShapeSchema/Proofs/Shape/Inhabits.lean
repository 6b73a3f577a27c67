import Mathlib.Data.List.Perm.Subperm
import ShapeSchema.Proofs.Native.Alike
import ShapeSchema.Proofs.Shape.Landing

/-!
# Native values of a shape

`OfShape` says which native values a shape has. Such a value reaches the end of the options and
pointers in front of its shape (`OfShape.land_ne_endless`): a chain without end would repeat itself,
and no finite value has that long a reason to belong to it.
-/

namespace ShapeSchema

/-! ## Values of scalars -/

/-- The native values of a scalar. -/
def Scalar.Holds (s : Scalar) (v : Native) : Prop :=
  match s with
  | .bool => ∃ b, v = .bool b
  | .char => ∃ t : String, v = .text t ∧ t.toList.length = 1
  | .string => ∃ t, v = .text t
  | .f32 | .f64 => ∃ d, v = .number d
  | .unit => v = .null
  | s => ∃ n, s.admits n = true ∧ v = if s.isNarrow then .ofInt n else .big n

/-- A value lies in another: it is the other one, or lies in one of its items. -/
inductive Native.Within : Native → Native → Prop where
  | self (v : Native) : Within v v
  | item {v w x : Native} {items : List Native} :
      w.items? = some items → x ∈ items → Within v x → Within v w

/-- Every whole number in a value has sixty-four bits. -/
def Native.FitsInt64 (v : Native) : Prop := ∀ n, (Native.big n).Within v → fitsInt64 n = true

/-- The length that a list of a kind has to have. -/
def Collection.FitsLength (kind : Collection) (length : Nat) : Prop :=
  ∀ n, kind = .fixed n → (length : Int) = n

/-! ## Values of shapes -/

/-- A native value belongs to a shape; `tag` is the tag field of data enums that name none. Whole
numbers fit sixty-four bits where a field writes them so. -/
inductive OfShape (g : Graph) (tag : String) : ShapeId → Native → Prop where
  | scalar {id : ShapeId} {s : Scalar} {v : Native} :
      g.shape id = .scalar s → s.Holds v → OfShape g tag id v
  | nothing {id inner : ShapeId} : g.shape id = .option inner → OfShape g tag id .null
  | something {id inner : ShapeId} {v : Native} :
      g.shape id = .option inner → OfShape g tag inner v → OfShape g tag id v
  | pointer {id inner : ShapeId} {kind : PointerKind} {v : Native} :
      g.shape id = .pointer kind inner → OfShape g tag inner v → OfShape g tag id v
  | array {id inner : ShapeId} {kind : Collection} {items : List Native} :
      g.shape id = .list kind inner → kind ≠ .set → kind.FitsLength items.length →
      (∀ x ∈ items, OfShape g tag inner x) → OfShape g tag id (.array items)
  | set {id inner : ShapeId} {items : List Native} :
      g.shape id = .list .set inner → Native.Stored items →
      (∀ x ∈ items, OfShape g tag inner x) → OfShape g tag id (.set items)
  | map {id key value : ShapeId} {es : List (Native × Native)} :
      g.shape id = .map .map key value → Native.Stored (es.map Prod.fst) →
      (∀ p ∈ es, OfShape g tag key p.1) → (∀ p ∈ es, OfShape g tag value p.2) →
      OfShape g tag id (.map es)
  | object {id key value : ShapeId} {ms : List (String × Native)} :
      g.shape id = .map .object key value → (Entries.keys ms).Nodup →
      (∀ p ∈ ms, OfShape g tag key (.text p.1)) → (∀ p ∈ ms, OfShape g tag value p.2) →
      OfShape g tag id (.object ms)
  | struct {id : ShapeId} {d : Declared} {fields : List Field} {ms : List (String × Native)} :
      g.shape id = .struct d fields → (Entries.keys ms).Perm (fields.map (·.name)) →
      (∀ f ∈ fields, ∀ v, Entries.find? ms f.name = some v → OfShape g tag f.shape v) →
      (∀ f ∈ fields, ∀ v, Entries.find? ms f.name = some v → f.intRepr = some .int64 →
        v.FitsInt64) → OfShape g tag id (.object ms)
  | text {id : ShapeId} {d : Declared} {own : Option String} {u : Bool} {vs : List Variant}
      {x : Variant} :
      g.shape id = .enum d own u vs → isDataEnum vs = false → x ∈ vs →
      OfShape g tag id (.text x.name)
  | data {id : ShapeId} {d : Declared} {own : Option String} {u : Bool} {vs : List Variant}
      {x : Variant} {ms : List (String × Native)} :
      g.shape id = .enum d own u vs → isDataEnum vs = true → x ∈ vs →
      (Entries.keys ms).Perm (own.getD tag :: x.fields.map (·.name)) →
      Entries.find? ms (own.getD tag) = some (.text x.name) →
      (∀ f ∈ x.fields, ∀ v, Entries.find? ms f.name = some v → OfShape g tag f.shape v) →
      (∀ f ∈ x.fields, ∀ v, Entries.find? ms f.name = some v → f.intRepr = some .int64 →
        v.FitsInt64) → OfShape g tag id (.object ms)

namespace Graph

variable {g : Graph} {isNull : Bool}

/-! ## Chains of options and pointers -/

/-- The chain of options and pointers from a shape comes to its end after so many steps. -/
inductive Ends (g : Graph) (isNull : Bool) : ShapeId → Nat → Prop where
  | bare {id : ShapeId} : (g.shape id).isWrapper = false → Ends g isNull id 0
  | null {id inner : ShapeId} : g.shape id = .option inner → isNull = true → Ends g isNull id 0
  | option {id inner : ShapeId} {n : Nat} :
      g.shape id = .option inner → isNull = false → Ends g isNull inner n → Ends g isNull id (n + 1)
  | pointer {id inner : ShapeId} {kind : PointerKind} {n : Nat} :
      g.shape id = .pointer kind inner → Ends g isNull inner n → Ends g isNull id (n + 1)

theorem Ends.unique {id : ShapeId} {m n : Nat} (hm : g.Ends isNull id m) (hn : g.Ends isNull id n) :
    m = n := by
  induction hm generalizing n with
  | bare hb =>
    cases hn with
    | bare | null => rfl
    | option hs | pointer hs =>
      rw [hs] at hb
      cases hb
  | null hs hnull =>
    cases hn with
    | bare | null => rfl
    | option _ hsome =>
      rw [hnull] at hsome
      cases hsome
    | pointer hs' =>
      rw [hs] at hs'
      cases hs'
  | option hs hsome _ ih =>
    cases hn with
    | bare hb =>
      rw [hs] at hb
      cases hb
    | null _ hnull =>
      rw [hnull] at hsome
      cases hsome
    | option hs' _ hn =>
      rw [hs] at hs'
      cases hs'
      rw [ih hn]
    | pointer hs' =>
      rw [hs] at hs'
      cases hs'
  | pointer hs _ ih =>
    cases hn with
    | bare hb =>
      rw [hs] at hb
      cases hb
    | null hs' | option hs' =>
      rw [hs] at hs'
      cases hs'
    | pointer hs' hn =>
      rw [hs] at hs'
      cases hs'
      rw [ih hn]

theorem Ends.descend {id : ShapeId} {n : Nat} (h : g.Ends isNull id n) {k : Nat} (hk : k ≤ n) :
    ∃ i, g.Ends isNull i k := by
  induction h with
  | bare hb =>
    obtain rfl := Nat.le_zero.1 hk
    exact ⟨_, .bare hb⟩
  | null hs hnull =>
    obtain rfl := Nat.le_zero.1 hk
    exact ⟨_, .null hs hnull⟩
  | option hs hsome h ih =>
    rcases Nat.le_succ_iff.1 hk with hk | rfl
    · exact ih hk
    · exact ⟨_, .option hs hsome h⟩
  | pointer hs h ih =>
    rcases Nat.le_succ_iff.1 hk with hk | rfl
    · exact ih hk
    · exact ⟨_, .pointer hs h⟩

theorem Ends.lt_size {id : ShapeId} {n : Nat} (h : g.Ends isNull id (n + 1)) : id < g.size := by
  have outside : ¬ id < g.size → g.shape id = .foreign .opaqueForm "" := by
    intro hid
    unfold shape
    rw [Array.getD_eq_getD_getElem?, Array.getElem?_eq_none (Nat.not_lt.1 hid)]
    rfl
  by_contra hid
  have hs' := outside hid
  cases h with
  | option hs | pointer hs =>
    rw [hs'] at hs
    cases hs

/-- A chain that ends does not visit a shape twice. -/
theorem Ends.le_size {id : ShapeId} {n : Nat} (h : g.Ends isNull id n) : n ≤ g.size := by
  have visits (k : Fin n) : ∃ i, g.Ends isNull i (k.val + 1) := h.descend k.isLt
  choose visited hvisited using visits
  have distinct : ((List.finRange n).map visited).Nodup := by
    refine (List.nodup_finRange n).map fun j k hjk => ?_
    have hj := hvisited j
    rw [hjk] at hj
    have := hj.unique (hvisited k)
    exact Fin.ext (by omega)
  have inside : (List.finRange n).map visited ⊆ List.range g.size := by
    intro i hi
    obtain ⟨k, -, rfl⟩ := List.mem_map.1 hi
    exact List.mem_range.2 (hvisited k).lt_size
  have hlen := (List.subperm_of_subset distinct inside).length_le
  rwa [List.length_map, List.length_finRange, List.length_range] at hlen

theorem Ends.landWithin_ne {id : ShapeId} {n : Nat} (h : g.Ends isNull id n) :
    ∀ {fuel : Nat}, n < fuel → g.landWithin isNull fuel id ≠ .endless := by
  induction h with
  | bare hb =>
    intro fuel hf
    obtain ⟨fuel, rfl⟩ := Nat.exists_eq_succ_of_ne_zero (Nat.ne_of_gt hf)
    unfold landWithin
    split
    · next hs => rw [hs] at hb; cases hb
    · next hs => rw [hs] at hb; cases hb
    · rintro ⟨⟩
  | null hs hnull =>
    intro fuel hf
    obtain ⟨fuel, rfl⟩ := Nat.exists_eq_succ_of_ne_zero (Nat.ne_of_gt hf)
    unfold landWithin
    rw [hs, hnull]
    rintro ⟨⟩
  | option hs hsome _ ih =>
    intro fuel hf
    obtain ⟨fuel, rfl⟩ := Nat.exists_eq_succ_of_ne_zero (Nat.ne_of_gt (Nat.zero_lt_of_lt hf))
    unfold landWithin
    rw [hs, hsome]
    rw [hsome] at ih
    exact ih (by omega)
  | pointer hs _ ih =>
    intro fuel hf
    obtain ⟨fuel, rfl⟩ := Nat.exists_eq_succ_of_ne_zero (Nat.ne_of_gt (Nat.zero_lt_of_lt hf))
    unfold landWithin
    rw [hs]
    exact ih (by omega)

theorem Ends.land_ne {id : ShapeId} {n : Nat} (h : g.Ends isNull id n) :
    g.land isNull id ≠ .endless := h.landWithin_ne (Nat.lt_succ_of_le h.le_size)

theorem landWithin_succ : ∀ {fuel : Nat} {id : ShapeId},
    g.landWithin isNull fuel id ≠ .endless →
    g.landWithin isNull (fuel + 1) id = g.landWithin isNull fuel id := by
  intro fuel
  induction fuel with
  | zero => exact fun h => absurd rfl h
  | succ fuel ih =>
    intro id h
    rw [landWithin] at h ⊢
    rw [landWithin]
    split at h
    · split at h
      · next hnull => simp only [hnull, if_true]
      · next hnull => rw [if_neg hnull, if_neg hnull, ih h]
    · exact ih h
    · rfl

/-- A pointer leads where the shape behind it does. -/
theorem land_pointer {id inner : ShapeId} {kind : PointerKind} (hs : g.shape id = .pointer kind inner)
    (h : g.land isNull id ≠ .endless) : g.land isNull id = g.land isNull inner := by
  unfold land at h ⊢
  rw [landWithin, hs] at h ⊢
  exact (landWithin_succ h).symm

/-! ## Shapes behind pointers -/

theorem behindPointers_of_null : ∀ {fuel : Nat} {id : ShapeId},
    g.landWithin true fuel id = .null → ∃ inner, g.behindPointers fuel id = .option inner := by
  intro fuel
  induction fuel with
  | zero =>
    intro id h
    cases h
  | succ fuel ih =>
    intro id h
    unfold landWithin at h
    unfold behindPointers
    split at h
    · next inner hs =>
      rw [hs]
      exact ⟨inner, rfl⟩
    · next hs =>
      rw [hs]
      exact ih h
    · cases h

theorem landWithin_of_option : ∀ {fuel : Nat} {id inner : ShapeId},
    g.behindPointers fuel id = .option inner → g.landWithin true fuel id = .null := by
  intro fuel
  induction fuel with
  | zero =>
    intro id inner h
    cases h
  | succ fuel ih =>
    intro id inner h
    unfold behindPointers at h
    unfold landWithin
    split at h
    · next hs =>
      rw [hs]
      exact ih h
    · rw [h]
      rfl

theorem land_of_isOption {id : ShapeId} (h : g.isOption id = true) : g.land true id = .null := by
  unfold isOption at h
  split at h
  · next hopt => exact landWithin_of_option hopt
  · cases h

theorem behindPointers_of_shape : ∀ {fuel : Nat} {id sid : ShapeId} {s : Shape},
    g.landWithin true fuel id = .shape sid s → g.behindPointers fuel id = s := by
  intro fuel
  induction fuel with
  | zero =>
    intro id sid s h
    cases h
  | succ fuel ih =>
    intro id sid s h
    unfold landWithin at h
    unfold behindPointers
    split at h
    · cases h
    · next hs =>
      rw [hs]
      exact ih h
    · next hopt hptr =>
      cases h
      split
      · next hs => exact absurd hs (hptr _ _)
      · rfl

/-- Where pointers lead to a shape that is no option, options and pointers lead there as well. -/
theorem landWithin_of_behindPointers {s : Shape} (hbare : s.isWrapper = false)
    (hknown : ∀ form ident, s ≠ .foreign form ident) : ∀ {fuel : Nat} {id : ShapeId},
    g.behindPointers fuel id = s → ∃ sid, g.landWithin isNull fuel id = .shape sid s := by
  intro fuel
  induction fuel with
  | zero =>
    intro id h
    exact absurd h.symm (hknown _ _)
  | succ fuel ih =>
    intro id h
    unfold behindPointers at h
    unfold landWithin
    split at h
    · next hs =>
      rw [hs]
      exact ih h
    · next hptr =>
      subst h
      split
      · next hs =>
        rw [hs] at hbare
        cases hbare
      · next hs => exact absurd hs (hptr _ _)
      · exact ⟨id, rfl⟩

end Graph

/-! ## Where values lead to -/

namespace OfShape

variable {g : Graph} {tag : String} {id sid : ShapeId} {s : Shape} {v : Native}

theorem ne_absent (h : OfShape g tag id v) : v ≠ .absent := by
  induction h with
  | scalar hs hv =>
    rintro rfl
    rename_i x
    cases x <;> simp [Scalar.Holds, Scalar.isNarrow, Native.ofInt] at hv
  | something _ _ ih => exact ih
  | pointer _ _ ih => exact ih
  | _ => rintro ⟨⟩

theorem eq_null (h : OfShape g tag id v) (hv : v.isNothing = true) : v = .null := by
  cases v with
  | null => rfl
  | absent => exact absurd rfl h.ne_absent
  | _ => cases hv

theorem ends (h : OfShape g tag id v) : ∃ n, g.Ends v.isNothing id n := by
  induction h with
  | nothing hs => exact ⟨0, .null hs rfl⟩
  | something hs hv ih =>
    rename_i v
    obtain ⟨n, hn⟩ := ih
    cases hnull : v.isNothing with
    | true => exact ⟨0, .null hs rfl⟩
    | false =>
      rw [hnull] at hn
      exact ⟨n + 1, .option hs rfl hn⟩
  | pointer hs _ ih =>
    obtain ⟨n, hn⟩ := ih
    exact ⟨n + 1, .pointer hs hn⟩
  | scalar hs | array hs | set hs | map hs | object hs | struct hs | text hs | data hs =>
    exact ⟨0, .bare (by rw [hs]; rfl)⟩

theorem land_ne_endless (h : OfShape g tag id v) : g.land v.isNothing id ≠ .endless := by
  obtain ⟨n, hn⟩ := h.ends
  exact hn.land_ne

theorem cases_option {inner : ShapeId} (h : OfShape g tag id v) (hs : g.shape id = .option inner) :
    v = .null ∨ OfShape g tag inner v := by
  cases h with
  | nothing => exact .inl rfl
  | something hs' hv =>
    rw [hs] at hs'
    cases hs'
    exact .inr hv
  | _ => simp_all

theorem cases_pointer {kind : PointerKind} {inner : ShapeId} (h : OfShape g tag id v)
    (hs : g.shape id = .pointer kind inner) : OfShape g tag inner v := by
  cases h with
  | pointer hs' hv =>
    rw [hs] at hs'
    cases hs'
    exact hv
  | _ => simp_all

theorem cases_scalar {x : Scalar} (h : OfShape g tag id v) (hs : g.shape id = .scalar x) :
    x.Holds v := by
  cases h with
  | scalar hs' hv =>
    rw [hs] at hs'
    cases hs'
    exact hv
  | _ => simp_all

theorem cases_struct {d : Declared} {fields : List Field} (h : OfShape g tag id v)
    (hs : g.shape id = .struct d fields) :
    ∃ ms, v = .object ms ∧ (Entries.keys ms).Perm (fields.map (·.name)) ∧
      (∀ f ∈ fields, ∀ x, Entries.find? ms f.name = some x → OfShape g tag f.shape x) ∧
      ∀ f ∈ fields, ∀ x, Entries.find? ms f.name = some x → f.intRepr = some .int64 →
        x.FitsInt64 := by
  cases h with
  | struct hs' hkeys hfields hints =>
    rw [hs] at hs'
    cases hs'
    exact ⟨_, rfl, hkeys, hfields, hints⟩
  | _ => simp_all

theorem cases_texts {d : Declared} {own : Option String} {u : Bool} {vs : List Variant}
    (h : OfShape g tag id v) (hs : g.shape id = .enum d own u vs) (hdata : isDataEnum vs = false) :
    ∃ x ∈ vs, v = .text x.name := by
  cases h with
  | text hs' _ hx =>
    rw [hs] at hs'
    cases hs'
    exact ⟨_, hx, rfl⟩
  | _ => simp_all

theorem cases_data {d : Declared} {own : Option String} {u : Bool} {vs : List Variant}
    (h : OfShape g tag id v) (hs : g.shape id = .enum d own u vs) (hdata : isDataEnum vs = true) :
    ∃ x ∈ vs, ∃ ms, v = .object ms ∧
      (Entries.keys ms).Perm (own.getD tag :: x.fields.map (·.name)) ∧
      Entries.find? ms (own.getD tag) = some (.text x.name) ∧
      (∀ f ∈ x.fields, ∀ y, Entries.find? ms f.name = some y → OfShape g tag f.shape y) ∧
      ∀ f ∈ x.fields, ∀ y, Entries.find? ms f.name = some y → f.intRepr = some .int64 →
        y.FitsInt64 := by
  cases h with
  | data hs' _ hx hkeys htag hfields hints =>
    rw [hs] at hs'
    cases hs'
    exact ⟨_, hx, _, rfl, hkeys, htag, hfields, hints⟩
  | _ => simp_all

theorem of_landWithin : ∀ {fuel : Nat} {id : ShapeId}, OfShape g tag id v →
    g.landWithin v.isNothing fuel id = .shape sid s → OfShape g tag sid v := by
  intro fuel
  induction fuel with
  | zero =>
    intro id _ h
    cases h
  | succ fuel ih =>
    intro id hv h
    unfold Graph.landWithin at h
    split at h
    · next inner hs =>
      split at h
      · cases h
      next hsome =>
      rcases hv.cases_option hs with rfl | hv
      · exact absurd rfl hsome
      · exact ih hv h
    · next hs => exact ih (hv.cases_pointer hs) h
    · cases h
      exact hv

theorem of_land (h : OfShape g tag id v) (hl : g.land v.isNothing id = .shape sid s) :
    OfShape g tag sid v := of_landWithin h hl

/-- A value belongs to the shape behind the pointers. -/
theorem of_unwrap (h : OfShape g tag id v) (hs : g.unwrap id = s) (hbare : s.isWrapper = false)
    (hknown : ∀ form ident, s ≠ .foreign form ident) :
    ∃ sid, g.LandsAt id sid s ∧ OfShape g tag sid v := by
  obtain ⟨sid, hl⟩ := Graph.landWithin_of_behindPointers hbare hknown hs
  exact ⟨sid, Graph.landsAt_of_land hl, h.of_land hl⟩

theorem holds_of_unwrap {x : Scalar} (h : OfShape g tag id v) (hs : g.unwrap id = .scalar x) :
    x.Holds v := by
  obtain ⟨sid, hlands, hv⟩ := h.of_unwrap hs rfl (by rintro _ _ ⟨⟩)
  exact hv.cases_scalar hlands.shape

end OfShape

/-! ## Shapes that have types -/

namespace Builder

variable {g : Graph} {s : BuildState} {isNull : Bool}

theorem ends_option {id inner : ShapeId} (hs : g.shape id = .option inner)
    (h : ∃ n, g.Ends isNull inner n) : ∃ n, g.Ends isNull id n := by
  obtain ⟨n, hn⟩ := h
  cases isNull with
  | true => exact ⟨0, .null hs rfl⟩
  | false => exact ⟨n + 1, .option hs rfl hn⟩

theorem ends_pointer {id inner : ShapeId} {kind : PointerKind}
    (hs : g.shape id = .pointer kind inner) (h : ∃ n, g.Ends isNull inner n) :
    ∃ n, g.Ends isNull id n := by
  obtain ⟨n, hn⟩ := h
  exact ⟨n + 1, .pointer hs hn⟩

theorem ends_bare {id : ShapeId} {x : Shape} (hs : g.shape id = x) (hbare : x.isWrapper = false) :
    ∃ n, g.Ends isNull id n := ⟨0, .bare (hs ▸ hbare)⟩

theorem isWrapper_of_isDeclared {x : Shape} (h : x.isDeclared = true) : x.isWrapper = false := by
  cases x with
  | struct | enum => rfl
  | _ => cases h

/-- Options and pointers come to an end in a shape that has a type. -/
theorem ends_of_hasType {id : ShapeId} {t : Ty Authored} (h : HasType g s id t) :
    ∃ n, g.Ends isNull id n := by
  induction h with
  | declared hd => exact ends_bare rfl (isWrapper_of_isDeclared hd)
  | option hs _ ih => exact ends_option hs ih
  | pointer hs _ ih => exact ends_pointer hs ih
  | scalar hs | list hs | map hs => exact ends_bare hs rfl

theorem ends_of_intType {repr : IntRepr} {id : ShapeId} {t : Ty Authored}
    (h : IntType g repr id t) : ∃ n, g.Ends isNull id n := by
  induction h with
  | option hs _ ih => exact ends_option hs ih
  | pointer hs _ ih => exact ends_pointer hs ih
  | scalar hs | list hs => exact ends_bare hs rfl

theorem ends_of_keyType {repr : KeyRepr} {f : Field} {ctx : FieldContext} {id : ShapeId}
    {t : Ty Authored} (h : KeyType g s repr f ctx id t) : ∃ n, g.Ends isNull id n := by
  induction h with
  | option hs _ ih => exact ends_option hs ih
  | pointer hs _ ih => exact ends_pointer hs ih
  | list hs | text hs | pairs hs => exact ends_bare hs rfl
  | other hs ht => exact ends_of_hasType ht

end Builder

end ShapeSchema
