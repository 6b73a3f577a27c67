import ShapeSchema.Convert.Write
import ShapeSchema.Proofs.Lists
import ShapeSchema.Proofs.Shape.Typed

/-!
# What writing gives

One lemma for each step of the writer: `write_list_ok` and its kin say when a value of a shape is
written and as what, in terms of its parts. Options and pointers are passed over by then, so each
lemma starts from the place where `Graph.land` has led.
-/

namespace ShapeSchema

/-! ## Runs that succeed -/

section
variable {α β : Type}

theorem ok_bind {x : Except Fault α} {f : α → Except Fault β} {b : β} :
    x >>= f = .ok b ↔ ∃ a, x = .ok a ∧ f a = .ok b := by
  cases x with
  | error e =>
    show (Except.error e = Except.ok b) ↔ _
    simp
  | ok a =>
    show f a = .ok b ↔ _
    simp

theorem ok_map {x : Except Fault α} {f : α → β} {b : β} :
    f <$> x = .ok b ↔ ∃ a, x = .ok a ∧ f a = b := by
  cases x with
  | error e =>
    show (Except.error e = Except.ok b) ↔ _
    simp
  | ok a =>
    show Except.ok (f a) = .ok b ↔ _
    simp

theorem ok_mapM {f : α → Except Fault β} {xs : List α} {ys : List β} :
    xs.mapM f = .ok ys ↔ List.Forall₂ (fun x y => f x = .ok y) xs ys := by
  induction xs generalizing ys with
  | nil =>
    rw [List.mapM_nil, List.forall₂_nil_left_iff]
    show Except.ok [] = .ok ys ↔ _
    rw [Except.ok.injEq, eq_comm]
  | cons x xs ih =>
    rw [List.mapM_cons, ok_bind]
    constructor
    · rintro ⟨y, hy, hrest⟩
      obtain ⟨ys', hys, hp⟩ := ok_bind.1 hrest
      cases hp
      exact .cons hy (ih.1 hys)
    · intro h
      cases h with
      | cons hy hys => exact ⟨_, hy, ok_bind.2 ⟨_, ih.2 hys, rfl⟩⟩

theorem ok_mapM_attach {xs : List α} {f : { x // x ∈ xs } → Except Fault β} {R : α → β → Prop}
    (h : ∀ p y, f p = .ok y ↔ R p.val y) {ys : List β} :
    xs.attach.mapM f = .ok ys ↔ List.Forall₂ R xs ys := by
  rw [ok_mapM]
  simp only [h]
  conv => rhs; rw [← List.attach_map_subtype_val xs]
  rw [List.forall₂_map_left_iff]

theorem ok_mapM_attach_zipIdx {xs : List α} {f : { x // x ∈ xs } × Nat → Except Fault β}
    {R : α × Nat → β → Prop} (h : ∀ p y, f p = .ok y ↔ R (p.1.val, p.2) y) {ys : List β} :
    xs.attach.zipIdx.mapM f = .ok ys ↔ List.Forall₂ R xs.zipIdx ys := by
  rw [ok_mapM]
  simp only [h]
  conv => rhs; rw [← List.attach_map_subtype_val xs, List.zipIdx_map]
  rw [List.forall₂_map_left_iff]
  rfl

theorem error_ne_ok {e : Fault} {a : α} : (.error e : Except Fault α) ≠ .ok a := by
  rintro ⟨⟩

theorem no_parts {γ : Type} {o : Option α} (h : o = none) {e : Fault} {P : α → β → Prop}
    {f : β → γ} {w : γ} : .error e = Except.ok w ↔ ∃ xs ys, o = some xs ∧ P xs ys ∧ w = f ys := by
  constructor
  · intro hw
    cases hw
  · rintro ⟨xs, ys, hs, -⟩
    rw [h] at hs
    cases hs

theorem ok_parts {γ : Type} {o : Option α} {xs : α} (h : o = some xs) {run : Except Fault β}
    {P : α → β → Prop} (hrun : ∀ ys, run = .ok ys ↔ P xs ys) {f : β → γ} {w : γ} :
    f <$> run = .ok w ↔ ∃ xs ys, o = some xs ∧ P xs ys ∧ w = f ys := by
  rw [ok_map]
  constructor
  · rintro ⟨ys, hys, rfl⟩
    exact ⟨xs, ys, h, (hrun ys).1 hys, rfl⟩
  · rintro ⟨xs', ys, hs, hys, rfl⟩
    obtain rfl : xs = xs' := Option.some.inj (h.symm.trans hs)
    exact ⟨ys, (hrun ys).2 hys, rfl⟩

end

namespace Converter

variable {c : Converter} {id sid : ShapeId} {v : Native} {path : Path} {w : Value}

/-! ## Lists -/

/-- Some items are written one by one. -/
def WritesItems (f : Native → Path → Except Fault Value) (path : Path) (items : List Native)
    (ws : List Value) : Prop :=
  List.Forall₂ (fun p y => f p.1 (path.index p.2) = .ok y) items.zipIdx ws

theorem write_list_ok {kind : Collection} {inner : ShapeId}
    (hl : c.graph.land v.isNothing id = .shape sid (.list kind inner)) :
    c.write id v path = .ok w ↔
      ∃ items ws, v.items? = some items ∧ WritesItems (c.write inner) path items ws ∧
        w = .list ws := by
  rw [write, hl]
  simp only
  split
  · next h => exact no_parts h
  · next h => exact ok_parts h fun _ => ok_mapM_attach_zipIdx fun _ _ => .rfl

theorem writeInts_list_ok {repr : IntRepr} {kind : Collection} {inner : ShapeId}
    (hl : c.graph.land v.isNothing id = .shape sid (.list kind inner)) :
    c.writeInts repr id v path = .ok w ↔
      ∃ items ws, v.items? = some items ∧ WritesItems (c.writeInts repr inner) path items ws ∧
        w = .list ws := by
  rw [writeInts, hl]
  simp only
  split
  · next h => exact no_parts h
  · next h => exact ok_parts h fun _ => ok_mapM_attach_zipIdx fun _ _ => .rfl

theorem writeKeyed_list_ok {repr : KeyRepr} {ctx : FieldContext} {kind : Collection}
    {inner : ShapeId} (hl : c.graph.land v.isNothing id = .shape sid (.list kind inner)) :
    c.writeKeyed repr ctx id v path = .ok w ↔
      ∃ items ws, v.items? = some items ∧
        WritesItems (c.writeKeyed repr ctx inner) path items ws ∧ w = .list ws := by
  rw [writeKeyed, hl]
  simp only
  split
  · next h => exact no_parts h
  · next h => exact ok_parts h fun _ => ok_mapM_attach_zipIdx fun _ _ => .rfl

/-! ## Scalars -/

theorem writeScalar_of_toInt {x : Scalar} {n : Int} (hx : x.isInteger = true)
    (hv : v.toInt? = some n) (path : Path) : writeScalar x v path = writeInt x n path := by
  unfold writeScalar
  split <;> first | cases hx | (rw [if_pos hx, hv])

theorem writeScalar_of_toInt_none {x : Scalar} (hx : x.isInteger = true) (hv : v.toInt? = none)
    (path : Path) : writeScalar x v path = violate (.notScalar x v.kindName) path := by
  unfold writeScalar
  split <;> first | cases hx | (rw [if_pos hx, hv])

theorem write_scalar {s : Scalar} (hl : c.graph.land v.isNothing id = .shape sid (.scalar s)) :
    c.write id v path = writeScalar s v path := by
  rw [write, hl]

theorem writeInts_scalar {repr : IntRepr} {s : Scalar}
    (hl : c.graph.land v.isNothing id = .shape sid (.scalar s)) :
    c.writeInts repr id v path = writeIntAs repr s.ident v path := by
  rw [writeInts, hl]
  rfl

/-! ## Maps -/

theorem write_map_ok {kind : Keyed} {key value : ShapeId}
    (hl : c.graph.land v.isNothing id = .shape sid (.map kind key value)) :
    c.write id v path = .ok w ↔
      ∃ es ws, v.entries? = some es ∧
        List.Forall₂ (fun p y => p.1 = .text y.1 ∧ c.write value p.2 (path.key y.1) = .ok y.2)
          es ws ∧ w = .ofEntries ws := by
  rw [write, hl]
  simp only
  split
  · next h => exact no_parts h
  next es h =>
  refine ok_parts h fun _ => ok_mapM_attach ?_
  rintro ⟨⟨k, x⟩, hx⟩ ⟨k', y⟩
  constructor
  · intro hy
    simp only at hy
    split at hy
    · obtain ⟨z, hz, hp⟩ := ok_bind.1 hy
      cases hp
      exact ⟨rfl, hz⟩
    · cases hy
  · rintro ⟨rfl, hy⟩
    exact ok_bind.2 ⟨y, hy, rfl⟩

theorem writeKeyed_text_ok {ctx : FieldContext} {kind : Keyed} {key value : ShapeId}
    (hl : c.graph.land v.isNothing id = .shape sid (.map kind key value)) :
    c.writeKeyed .text ctx id v path = .ok w ↔
      ∃ es ws, v.entries? = some es ∧
        List.Forall₂ (fun p y => keyText p.1 path = .ok y.1 ∧
          c.write value p.2 (path.key y.1) = .ok y.2) es ws ∧ w = .ofEntries ws := by
  rw [writeKeyed, hl]
  simp only
  split
  · next h => exact no_parts h
  next es h =>
  refine ok_parts h fun _ => ok_mapM_attach ?_
  rintro ⟨⟨k, x⟩, hx⟩ ⟨k', y⟩
  simp only [ok_bind]
  constructor
  · rintro ⟨_, hk, _, hy, hp⟩
    cases hp
    exact ⟨hk, hy⟩
  · rintro ⟨hk, hy⟩
    exact ⟨_, hk, _, hy, rfl⟩

theorem writeKeyed_pairs_ok {ctx : FieldContext} {kind : Keyed} {key value : ShapeId}
    (hl : c.graph.land v.isNothing id = .shape sid (.map kind key value)) :
    c.writeKeyed .pairs ctx id v path = .ok w ↔
      ∃ es ws, v.entries? = some es ∧
        List.Forall₂ (fun p y => ∃ k x,
          c.write key p.1.1 ((path.index p.2).field "key") = .ok k ∧
          c.write value p.1.2 ((path.index p.2).field "value") = .ok x ∧
          y = .classOf (entryClassName ctx).1 [("key", k), ("value", x)]) es.zipIdx ws ∧
        w = .list ws := by
  rw [writeKeyed, hl]
  simp only
  split
  · next h => exact no_parts h
  next es h =>
  refine ok_parts h fun _ => ok_mapM_attach_zipIdx ?_
  rintro ⟨⟨⟨k, x⟩, hx⟩, i⟩ y
  simp only [ok_bind]
  constructor
  · rintro ⟨_, hk, _, hy, hp⟩
    cases hp
    exact ⟨_, _, hk, hy, rfl⟩
  · rintro ⟨_, _, hk, hy, rfl⟩
    exact ⟨_, hk, _, hy, rfl⟩

theorem writeKeyed_other {repr : KeyRepr} {ctx : FieldContext} {s : Shape}
    (hl : c.graph.land v.isNothing id = .shape sid s)
    (hs : s.isDeclared = true ∨ ∃ x, s = .scalar x) :
    c.writeKeyed repr ctx id v path = c.write sid v path := by
  rw [writeKeyed, hl]
  rcases hs with hs | ⟨x, rfl⟩
  · cases s <;> first | rfl | cases hs
  · rfl

/-- A field that chooses nothing is written by its shape. -/
theorem writeField_plain {f : Field} (h : f.codec = none ∧ f.intRepr = none ∧ f.keyRepr = none)
    (ctx : FieldContext) (v : Native) (path : Path) :
    c.writeField f ctx v path = c.write f.shape v path := by
  rw [writeField, h.1, h.2.1, h.2.2]

/-! ## Structs and enums -/

/-- The fields that are not skipped are written from the members of an object. -/
def WritesFields (c : Converter) (owner : String) (variant : Option Variant) (fields : List Field)
    (ms : List (String × Native)) (path : Path) (fs : List (String × Value)) : Prop :=
  List.Forall₂ (fun f p => p.1 = f.name ∧
    c.writeField f (ownerContext owner variant f) (Native.answer ms f.name) (path.field f.name)
      = .ok p.2) (fields.filter fun f => !f.skip) fs

theorem writeFields_ok {owner : String} {variant : Option Variant} {fields : List Field}
    {ms : List (String × Native)} {h : v.members? = some ms} {fs : List (String × Value)} :
    c.writeFields owner variant fields v ms h path = .ok fs ↔
      c.WritesFields owner variant fields ms path fs := by
  rw [writeFields, ok_mapM]
  unfold WritesFields
  have field (f : Field) (p : String × Value) :
      (do return (f.name, ← c.writeField f (ownerContext owner variant f)
        (Native.answer ms f.name) (path.field f.name))) = Except.ok p ↔
      p.1 = f.name ∧ c.writeField f (ownerContext owner variant f) (Native.answer ms f.name)
        (path.field f.name) = .ok p.2 := by
    rw [ok_bind]
    constructor
    · rintro ⟨y, hy, hp⟩
      cases hp
      exact ⟨rfl, hy⟩
    · rintro ⟨hp, hy⟩
      exact ⟨p.2, hy, by rw [← hp]; rfl⟩
  simp only [field]

theorem keys_of_writesFields {owner : String} {variant : Option Variant} {fields : List Field}
    {ms : List (String × Native)} {path : Path} {fs : List (String × Value)}
    (h : c.WritesFields owner variant fields ms path fs) :
    Entries.keys fs = (fields.filter fun f => !f.skip).map (·.name) :=
  map_eq_of_forall₂ (h.imp fun _ _ hp => hp.1)

theorem nodup_of_writesFields {owner : String} {variant : Option Variant} {fields : List Field}
    {ms : List (String × Native)} {path : Path} {fs : List (String × Value)}
    (h : c.WritesFields owner variant fields ms path fs) (nd : (fields.map (·.name)).Nodup) :
    (Entries.keys fs).Nodup := by
  rw [keys_of_writesFields h]
  exact nd.sublist (List.filter_sublist.map _)

theorem write_struct_ok {d : Declared} {fields : List Field}
    (hl : c.graph.land v.isNothing id = .shape sid (.struct d fields)) :
    c.write id v path = .ok w ↔
      ∃ ms fs, v.members? = some ms ∧
        c.WritesFields (c.names.internalName sid d) none fields ms path fs ∧
        w = .ofFields (c.names.internalName sid d) fs := by
  rw [write, hl]
  simp only
  split
  · next h => exact no_parts h
  · next h => exact ok_parts h fun _ => writeFields_ok

theorem mem_of_namedVariant? {vs : List Variant} {v : Native} {x : Variant}
    (h : namedVariant? vs v = some x) : x ∈ vs := by
  unfold namedVariant? at h
  split at h
  · exact List.mem_of_find?_eq_some h
  · cases h

theorem write_texts_ok {d : Declared} {tag : Option String} {asUnion : Bool}
    {variants : List Variant}
    (hl : c.graph.land v.isNothing id = .shape sid (.enum d tag asUnion variants))
    (hdata : isDataEnum variants = false) :
    c.write id v path = .ok w ↔ ∃ x, namedVariant? variants v = some x ∧
      w = if asUnion then .text x.rendered else .enumOf (c.names.internalName sid d) x.name := by
  rw [write, hl]
  simp only [hdata, Bool.false_eq_true, if_false]
  cases namedVariant? variants v with
  | none =>
    constructor
    · intro hw
      obtain ⟨_, _, hv⟩ := ok_bind.1 hw
      cases hv
    · rintro ⟨x, hx, -⟩
      cases hx
  | some x =>
    constructor
    · intro hw
      cases hw
      exact ⟨x, rfl, rfl⟩
    · rintro ⟨_, hx, rfl⟩
      cases hx
      rfl

theorem write_data_ok {d : Declared} {tag : Option String} {asUnion : Bool}
    {variants : List Variant}
    (hl : c.graph.land v.isNothing id = .shape sid (.enum d tag asUnion variants))
    (hdata : isDataEnum variants = true) :
    c.write id v path = .ok w ↔ ∃ ms x fs, v.members? = some ms ∧
      namedVariant? variants (Native.answer ms (tag.getD c.names.tagField)) = some x ∧
      c.WritesFields (c.names.internalName sid d) (some x) x.fields ms path fs ∧
      w = .ofFields (variantClassName (c.names.internalName sid d) x)
        ((tag.getD c.names.tagField, .text x.rendered) :: fs) := by
  rw [write, hl]
  simp only [hdata, if_true]
  split
  · next h =>
    constructor
    · intro hw
      cases hw
    · rintro ⟨ms, _, _, hms, -⟩
      rw [h] at hms
      cases hms
  next ms h =>
  cases hx : namedVariant? variants (Native.answer ms (tag.getD c.names.tagField)) with
  | none =>
    constructor
    · intro hw
      obtain ⟨_, _, hv⟩ := ok_bind.1 hw
      cases hv
    · rintro ⟨ms', x, _, hms, hx', -⟩
      obtain rfl : ms = ms' := Option.some.inj (h.symm.trans hms)
      rw [hx] at hx'
      cases hx'
  | some x =>
    constructor
    · intro hw
      obtain ⟨fs, hfs, hp⟩ := ok_bind.1 hw
      cases hp
      exact ⟨ms, x, fs, h, hx, writeFields_ok.1 hfs, rfl⟩
    · rintro ⟨ms', x', fs, hms, hx', hfs, rfl⟩
      obtain rfl : ms = ms' := Option.some.inj (h.symm.trans hms)
      obtain rfl : x = x' := Option.some.inj (hx.symm.trans hx')
      exact ok_bind.2 ⟨fs, writeFields_ok.2 hfs, rfl⟩

end Converter

end ShapeSchema
