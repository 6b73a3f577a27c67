import ShapeSchema.Proofs.Convert.Admits

/-!
# Coercion by form

What coercion does at each form of type, put as one equation: the fields of a class, the items of a
list or tuple, the entries of a map and the members of a union are run over one by one. The walk
itself carries along why its parts are smaller, which nothing but its termination asks for.
-/

namespace ShapeSchema.Coercer

/-- A field of a class among the entries of a value. -/
def coerceField (c : Coercer) (es : List (String × Value)) (path : Path) (f : FieldDef) :
    Checked (String × Value) :=
  match f.name.lookup? es with
  | none =>
    if c.schema.acceptsNull f.type then do
      .flag ⟨.optionalDefaulted, (path.field f.name.real).text, none⟩
      return (f.name.real, .null)
    else .fail (.convert (.missing (path.field f.name.real) f.type.display))
  | some found =>
    if found.isNull && !c.schema.acceptsNull f.type then
      .fail (.convert (.nullForRequired (path.field f.name.real) f.type.display))
    else return (f.name.real, ← c.coerce c.schema.aliasNames found f.type (path.field f.name.real))

/-- A member of a union, the place of which is noted if there are several. -/
def coerceMember (c : Coercer) (pending : List String) (v : Value) (path : Path) (several : Bool)
    (m : Ty Authored × Nat) : Checked Value := do
  let out ← c.coerce pending v m.1 path
  if several then .flag ⟨.unionMember, path.text, some (toString m.2)⟩
  return out

variable {c : Coercer} {pending : List String} {v : Value} {path : Path} {a : Authored}

theorem succeeds_coerceMember_iff {several : Bool} {m : Ty Authored × Nat} :
    (c.coerceMember pending v path several m).Succeeds ↔
      (c.coerce pending v m.1 path).Succeeds := Checked.succeeds_bind_iff (succeeds_chosen _ _)

/-! ## Walks that carry their places along -/

theorem mapM_attach {α β : Type} (f : α → Checked β) (xs : List α) :
    (xs.attach.mapM fun x => f x.val) = xs.mapM f := by
  conv => rhs; rw [← List.attach_map_subtype_val xs, List.mapM_map]
  rfl

theorem mapM_attach_zipIdx {α β : Type} (f : α × Nat → Checked β) (xs : List α) :
    (xs.attach.zipIdx.mapM fun p => f (p.1.val, p.2)) = xs.zipIdx.mapM f := by
  conv => rhs; rw [← List.attach_map_subtype_val xs, List.zipIdx_map, List.mapM_map]
  rfl

theorem mapM_attach_zip_zipIdx {α β γ : Type} (f : (α × β) × Nat → Checked γ) (xs : List α)
    (ys : List β) : ((xs.attach.zip ys).zipIdx.mapM fun p => f ((p.1.1.val, p.1.2), p.2)) =
      (xs.zip ys).zipIdx.mapM f := by
  conv =>
    rhs
    rw [← List.attach_map_subtype_val xs, List.zip_map_left, List.zipIdx_map, List.mapM_map]
  rfl

theorem forall_mem_zipIdx {α : Type} {P : α → Prop} {xs : List α} :
    (∀ p ∈ xs.zipIdx, P p.1) ↔ ∀ x ∈ xs, P x := by
  have hmap : (∀ x ∈ xs.zipIdx.map Prod.fst, P x) ↔ ∀ p ∈ xs.zipIdx, P p.1 := List.forall_mem_map
  rw [List.zipIdx_map_fst] at hmap
  exact hmap.symm

/-! ## One equation for each form -/

theorem coerceForm_classRef {name : String} {mode : Mode} {dyn : Bool} {d : ClassDef}
    {es : List (String × Value)} (hd : c.schema.findClass? name mode = some d)
    (hes : v.entries? = some es) : c.coerceForm pending v (.classRef name mode dyn a) path =
      (do
        let fs ← d.fields.mapM (c.coerceField es path)
        evaluateConstraints (.ofFields name fs) (ownConstraints d a) c.eval c.sink
        return .ofFields name fs) := by
  rw [coerceForm]
  simp only [hd]
  split
  · next hnone =>
    rw [hes] at hnone
    cases hnone
  next es' hes' =>
  obtain rfl := Option.some.inj (hes.symm.trans hes')
  refine congrArg (· >>= _) (congrArg (List.mapM · d.fields) (funext fun f => ?_))
  unfold coerceField
  split
  · next hnone => rw [hnone]
  · next found hfound => rw [hfound]

theorem coerceForm_list {item : Ty Authored} {items : List Value} (hv : v.items? = some items) :
    c.coerceForm pending v (.list item a) path = .list <$> items.zipIdx.mapM fun p =>
      c.coerce c.schema.aliasNames p.1 item (path.index p.2) := by
  rw [coerceForm]
  split
  · next hnone =>
    rw [hv] at hnone
    cases hnone
  next items' hitems =>
  obtain rfl := Option.some.inj (hv.symm.trans hitems)
  exact congrArg (Value.list <$> ·) (mapM_attach_zipIdx (fun p =>
    c.coerce c.schema.aliasNames p.1 item (path.index p.2)) items)

theorem coerceForm_map {key value : Ty Authored} {es : List (String × Value)}
    (hv : v.entries? = some es) : c.coerceForm pending v (.map key value a) path =
      (do
        let kept ← es.mapM fun p => keepOrDrop c.sink p.1
          (c.coerce c.schema.aliasNames p.2 value (path.key p.1))
        return .ofEntries (kept.filterMap id)) := by
  rw [coerceForm]
  split
  · next hnone =>
    rw [hv] at hnone
    cases hnone
  next es' hes =>
  obtain rfl := Option.some.inj (hv.symm.trans hes)
  exact congrArg (· >>= _) (mapM_attach (fun p => keepOrDrop c.sink p.1
    (c.coerce c.schema.aliasNames p.2 value (path.key p.1))) es)

theorem coerceForm_tuple {types : List (Ty Authored)} {items : List Value}
    (hv : v.items? = some items) (hlen : items.length = types.length) :
    c.coerceForm pending v (.tuple types a) path = .list <$> (items.zip types).zipIdx.mapM fun p =>
      c.coerce c.schema.aliasNames p.1.1 p.1.2 (path.index p.2) := by
  rw [coerceForm]
  split
  · next hnone =>
    rw [hv] at hnone
    cases hnone
  next items' hitems =>
  obtain rfl := Option.some.inj (hv.symm.trans hitems)
  rw [if_pos hlen]
  exact congrArg (Value.list <$> ·) (mapM_attach_zip_zipIdx (fun p =>
    c.coerce c.schema.aliasNames p.1.1 p.1.2 (path.index p.2)) items types)

theorem coerceForm_aliasRef {name : String} {mode : Mode} {e : Ty Authored}
    (he : c.schema.expand? name = some e) (hmem : name ∈ pending) :
    c.coerceForm pending v (.aliasRef name mode a) path =
      c.coerce (pending.erase name) v e path := by
  rw [coerceForm]
  simp only [he, dif_pos hmem]

theorem coerceForm_union {ms : List (Ty Authored)} {null : Option Authored}
    (h : (v.isNull && null.isSome) = false) : c.coerceForm pending v (.union ms null a) path =
      firstFit none (wrongKind (.union ms null a) v path)
        (ms.zipIdx.map fun m _ => c.coerceMember pending v path (decide (1 < ms.length)) m) := by
  rw [coerceForm, h, if_neg Bool.false_ne_true]
  have hruns : ms.attach.zipIdx.map (fun m (_ : Unit) =>
      c.coerceMember pending v path (decide (1 < ms.length)) (m.1.val, m.2)) =
      ms.zipIdx.map fun m _ => c.coerceMember pending v path (decide (1 < ms.length)) m := by
    conv => rhs; rw [← List.attach_map_subtype_val ms, List.zipIdx_map, List.map_map]
    rw [List.attach_map_subtype_val]
    rfl
  rw [← hruns]
  simp only [coerceMember, decide_eq_true_eq]

/-! ## Values of another kind -/

theorem coerceForm_classRef_misfit {name : String} {mode : Mode} {dyn : Bool} {d : ClassDef}
    (hd : c.schema.findClass? name mode = some d) (hv : v.entries? = none) :
    c.coerceForm pending v (.classRef name mode dyn a) path =
      wrongKind (.classRef name mode dyn a) v path := by
  rw [coerceForm]
  simp only [hd]
  split
  · rfl
  · next hes =>
    rw [hv] at hes
    cases hes

theorem coerceForm_list_misfit {item : Ty Authored} (hv : v.items? = none) :
    c.coerceForm pending v (.list item a) path = wrongKind (.list item a) v path := by
  rw [coerceForm]
  split
  · rfl
  · next hitems =>
    rw [hv] at hitems
    cases hitems

theorem coerceForm_map_misfit {key value : Ty Authored} (hv : v.entries? = none) :
    c.coerceForm pending v (.map key value a) path = wrongKind (.map key value a) v path := by
  rw [coerceForm]
  split
  · rfl
  · next hes =>
    rw [hv] at hes
    cases hes

theorem coerceForm_tuple_misfit {types : List (Ty Authored)} (hv : v.items? = none ∨
    ∃ items, v.items? = some items ∧ items.length ≠ types.length) :
    c.coerceForm pending v (.tuple types a) path = wrongKind (.tuple types a) v path := by
  rw [coerceForm]
  split
  · rfl
  · next items hitems =>
    refine if_neg fun hlen => ?_
    rcases hv with hv | ⟨items', hv, hne⟩
    · rw [hv] at hitems
      cases hitems
    · obtain rfl := Option.some.inj (hv.symm.trans hitems)
      exact hne hlen

end ShapeSchema.Coercer
