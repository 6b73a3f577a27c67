import ShapeSchema.Proofs.Convert.Writing
import ShapeSchema.Proofs.Shape.Terminates
import ShapeSchema.Shape.Zero

/-!
# Shapes that have a zero value

A shape has a zero value if it is of the right form and the shapes that its zero is made of have
one; no shape is a part of its own zero. The depth that a search for a zero value starts with is
then enough, so that a field is filled in exactly if it has a value of its own or its shape has a
zero (`fieldDefault_ok_iff`), and `IsZero` tells which value that is (`zero_ok_iff`).
-/

namespace ShapeSchema

open Relation

/-! ## What a zero value is made of -/

/-- Has a field a default value of its own? -/
def Field.hasValue (f : Field) : Bool :=
  match f.default with
  | some (.value _) => true
  | _ => false

/-- Is a shape of a form that may have a zero value? An enum needs a first variant without fields.
-/
def Shape.zeroable : Shape → Bool
  | .enum _ _ _ variants =>
    match variants with
    | [] => false
    | v :: _ => v.fields.isEmpty
  | .foreign _ _ => false
  | _ => true

/-- The shapes whose zeros are parts of the zero of a shape. -/
def Shape.zeroParts : Shape → List ShapeId
  | .list (.fixed n) inner => if 0 < n then [inner] else []
  | .pointer _ inner => [inner]
  | .struct _ fields => (fields.filter fun f => !f.hasValue).map (·.shape)
  | _ => []

theorem Shape.mem_zeroParts_fixed {n : Int} {inner part : ShapeId} :
    part ∈ (Shape.list (.fixed n) inner).zeroParts ↔ 0 < n ∧ part = inner := by
  unfold zeroParts
  by_cases hn : 0 < n <;> simp [hn]

namespace Graph

/-- A shape has a zero value that comes to an end. -/
inductive HasZero (g : Graph) : ShapeId → Prop where
  | intro {id : ShapeId} : (g.shape id).zeroable = true →
      (∀ part ∈ (g.shape id).zeroParts, HasZero g part) → HasZero g id

/-- Something can stand in for a field. -/
def HasDefault (g : Graph) (f : Field) : Prop := f.hasValue = true ∨ g.HasZero f.shape

/-- The zero of a shape is a part of that of another. -/
def ZeroPart (g : Graph) (a b : ShapeId) : Prop := b ∈ (g.shape a).zeroParts

variable {g : Graph} {id : ShapeId}

theorem HasZero.zeroable (h : g.HasZero id) : (g.shape id).zeroable = true := by
  cases h with
  | intro hform _ => exact hform

theorem HasZero.part (h : g.HasZero id) {part : ShapeId} (hp : g.ZeroPart id part) :
    g.HasZero part := by
  cases h with
  | intro _ hparts => exact hparts part hp

theorem HasZero.lt_size (h : g.HasZero id) : id < g.size := by
  by_contra hle
  have hform := h.zeroable
  rw [shape_of_le (Nat.le_of_not_lt hle)] at hform
  cases hform

/-- No zero is a part of itself. -/
theorem HasZero.acyclic (h : g.HasZero id) : ¬ TransGen g.ZeroPart id id := by
  induction h with
  | @intro id hform _ ih =>
    intro hcycle
    obtain ⟨part, hp, hback⟩ := TransGen.head'_iff.1 hcycle
    exact ih part hp (TransGen.tail' hback hp)

/-! ## Zero values are found -/

/-- How deep a search for the zero of a shape has to go. -/
noncomputable def zeroDepth (g : Graph) (id : ShapeId) : Nat :=
  2 * (ahead g.ZeroPart g.size id).card + 2

theorem HasZero.zeroDepth_part (h : g.HasZero id) {part : ShapeId} (hp : g.ZeroPart id part) :
    g.zeroDepth part + 2 ≤ g.zeroDepth id := by
  have hpart := h.part hp
  have := card_ahead_lt hp hpart.lt_size hpart.acyclic
  unfold zeroDepth
  omega

theorem HasZero.zeroDepth_le (h : g.HasZero id) : g.zeroDepth id ≤ 2 * g.size := by
  have := card_ahead_lt_bound h.lt_size h.acyclic
  unfold zeroDepth
  omega

theorem zeroDepth_pos : 2 ≤ g.zeroDepth id := by
  unfold zeroDepth
  omega

theorem exists_mapM {α β : Type} {f : α → Except Fault β} {xs : List α}
    (h : ∀ x ∈ xs, ∃ y, f x = .ok y) : ∃ ys, xs.mapM f = .ok ys := by
  obtain ⟨ys, hys⟩ := exists_related h
  exact ⟨ys, ok_mapM.2 hys⟩

theorem fieldDefaultWithin_ok {fuel : Nat} {f : Field} {path : Path}
    (h : f.hasValue = false → ∃ v, g.zeroWithin fuel f.shape path = .ok v) :
    ∃ v, g.fieldDefaultWithin (fuel + 1) f path = .ok v := by
  unfold Field.hasValue at h
  unfold fieldDefaultWithin
  split
  · exact ⟨_, rfl⟩
  · next hnone =>
    split at h
    · next hsome => exact absurd hsome (hnone _)
    · exact h rfl

theorem exists_zeroItems (fuel : Nat) (path : Path) {n : Int} {inner : ShapeId}
    (part : 0 < n → ∀ here, ∃ v, g.zeroWithin fuel inner here = .ok v) :
    ∃ vs, (List.range n.toNat).mapM (fun i => g.zeroWithin fuel inner (path.index i)) = .ok vs := by
  refine exists_mapM fun i hi => part ?_ _
  have := List.mem_range.1 hi
  omega

theorem exists_zeroFields (fuel : Nat) (path : Path) {fields : List Field}
    (part : ∀ f ∈ fields, f.hasValue = false → ∀ here,
      ∃ v, g.zeroWithin fuel f.shape here = .ok v) :
    ∃ vs, fields.mapM (fun f => do
      return (f.name, ← g.fieldDefaultWithin (fuel + 1) f (path.field f.name))) = .ok vs := by
  refine exists_mapM fun f hf => ?_
  obtain ⟨v, hv⟩ := fieldDefaultWithin_ok fun hvalue => part f hf hvalue (path.field f.name)
  exact ⟨_, ok_bind.2 ⟨v, hv, rfl⟩⟩

/-- The induction is on why the shape has a zero value. Every step to a part of the zero uses up at
most two levels of the search, one for a field and one for its shape. -/
theorem HasZero.zeroWithin (h : g.HasZero id) : ∀ {fuel : Nat}, g.zeroDepth id ≤ fuel →
    ∀ path, ∃ v, g.zeroWithin fuel id path = .ok v := by
  induction h with
  | @intro id hform hparts ih =>
    have hzero : g.HasZero id := .intro hform hparts
    have part {p : ShapeId} (hp : g.ZeroPart id p) {fuel : Nat} (hf : g.zeroDepth id ≤ fuel + 2)
        (path : Path) : ∃ v, g.zeroWithin fuel p path = .ok v := by
      have := hzero.zeroDepth_part hp
      exact ih p hp (by omega) path
    intro fuel hf path
    have hpos : 2 ≤ g.zeroDepth id := zeroDepth_pos
    obtain ⟨fuel, rfl⟩ : ∃ k, fuel = k + 2 := ⟨fuel - 2, by omega⟩
    unfold Graph.zeroWithin
    unfold ZeroPart at part
    generalize g.shape id = shape at hform part
    cases shape with
    | scalar x => exact ⟨_, rfl⟩
    | option inner => exact ⟨_, rfl⟩
    | list kind inner =>
      cases kind with
      | array | set => exact ⟨_, rfl⟩
      | fixed n =>
        obtain ⟨vs, hvs⟩ := exists_zeroItems (fuel + 1) path fun hpositive here =>
          part (Shape.mem_zeroParts_fixed.2 ⟨hpositive, rfl⟩) (by omega) here
        exact ⟨_, ok_map.2 ⟨vs, hvs, rfl⟩⟩
    | map kind key value => cases kind <;> exact ⟨_, rfl⟩
    | pointer kind inner => exact part (List.mem_singleton.2 rfl) (by omega) path
    | struct d fields =>
      obtain ⟨vs, hvs⟩ := exists_zeroFields fuel path fun f hmem hvalue here =>
        part (List.mem_map_of_mem (List.mem_filter.2 ⟨hmem, by simp [hvalue]⟩)) hf here
      exact ⟨_, ok_map.2 ⟨vs, hvs, rfl⟩⟩
    | enum d own u vs =>
      cases vs with
      | nil => cases hform
      | cons v vs => exact ⟨_, if_pos hform⟩
    | foreign form ident => cases hform

/-! ## Which value the zero is -/

/-- A value is the zero of a shape: the items of a list of fixed length are zeros, and so are the
fields of a struct that have no value of their own. -/
inductive IsZero (g : Graph) : ShapeId → Native → Prop where
  | scalar {id : ShapeId} {s : Scalar} : g.shape id = .scalar s → IsZero g id (scalarZero s)
  | option {id inner : ShapeId} : g.shape id = .option inner → IsZero g id .null
  | array {id inner : ShapeId} : g.shape id = .list .array inner → IsZero g id (.array [])
  | set {id inner : ShapeId} : g.shape id = .list .set inner → IsZero g id (.set [])
  | fixed {id inner : ShapeId} {n : Int} {items : List Native} :
      g.shape id = .list (.fixed n) inner → items.length = n.toNat →
      (∀ x ∈ items, IsZero g inner x) → IsZero g id (.array items)
  | map {id key value : ShapeId} : g.shape id = .map .map key value → IsZero g id (.map [])
  | object {id key value : ShapeId} :
      g.shape id = .map .object key value → IsZero g id (.object [])
  | pointer {id inner : ShapeId} {kind : PointerKind} {v : Native} :
      g.shape id = .pointer kind inner → IsZero g inner v → IsZero g id v
  | struct {id : ShapeId} {d : Declared} {fields : List Field} {fill : Field → Native} :
      g.shape id = .struct d fields →
      (∀ f ∈ fields, f.hasValue = true → f.default = some (.value (fill f))) →
      (∀ f ∈ fields, f.hasValue = false → IsZero g f.shape (fill f)) →
      IsZero g id (.record (fields.map fun f => (f.name, fill f)))
  | text {id : ShapeId} {d : Declared} {own : Option String} {u : Bool} {x : Variant}
      {vs : List Variant} :
      g.shape id = .enum d own u (x :: vs) → x.fields.isEmpty = true → IsZero g id (.text x.name)

/-- A value stands in for a field: its own one, or the zero of its shape. -/
def StandsIn (g : Graph) (f : Field) (v : Native) : Prop :=
  f.default = some (.value v) ∨ f.hasValue = false ∧ g.IsZero f.shape v

theorem hasValue_of_default {f : Field} {v : Native} (h : f.default = some (.value v)) :
    f.hasValue = true := by
  unfold Field.hasValue
  rw [h]

/-- What a run over the fields of a struct makes, as a function of the field. -/
theorem exists_fill {fuel : Nat} {path : Path} {fields : List Field} {ms : List (String × Native)}
    (h : fields.mapM (fun f => do
      return (f.name, ← g.fieldDefaultWithin fuel f (path.field f.name))) = .ok ms) :
    ∃ fill : Field → Native, ms = fields.map (fun f => (f.name, fill f)) ∧
      ∀ f ∈ fields, g.fieldDefaultWithin fuel f (path.field f.name) = .ok (fill f) := by
  let fill (f : Field) : Native :=
    (g.fieldDefaultWithin fuel f (path.field f.name)).toOption.getD .null
  have fill_of_ok {f : Field} {x : Native}
      (hx : g.fieldDefaultWithin fuel f (path.field f.name) = .ok x) : fill f = x := by
    simp only [fill, hx, Except.toOption, Option.getD_some]
  have hrun := ok_mapM.1 h
  refine ⟨fill, ?_, fun f hf => ?_⟩
  · rw [← List.map_id ms]
    refine map_eq_of_forall₂ (hrun.imp fun f p hp => ?_)
    obtain ⟨x, hx, hp⟩ := ok_bind.1 hp
    cases hp
    rw [fill_of_ok hx, id_eq]
  · obtain ⟨p, -, hp⟩ := exists_of_forall₂ hrun.flip hf
    obtain ⟨x, hx, -⟩ := ok_bind.1 hp
    rw [fill_of_ok hx, hx]

theorem isZero_of_zeroWithin_succ {fuel : Nat} {path : Path} {v : Native}
    (zero : ∀ id path v, g.zeroWithin fuel id path = .ok v → g.IsZero id v)
    (default : ∀ f path v, g.fieldDefaultWithin fuel f path = .ok v → g.StandsIn f v)
    (h : g.zeroWithin (fuel + 1) id path = .ok v) : g.IsZero id v := by
  unfold Graph.zeroWithin at h
  cases hs : g.shape id with
  | scalar | option =>
    rw [hs] at h
    cases h
    constructor
    exact hs
  | list kind inner =>
    rw [hs] at h
    cases kind with
    | array | set =>
      cases h
      constructor
      exact hs
    | fixed n =>
      obtain ⟨items, hitems, rfl⟩ := ok_map.1 h
      have hrun := ok_mapM.1 hitems
      refine .fixed hs (by rw [← hrun.length_eq, List.length_range]) fun x hx => ?_
      obtain ⟨i, -, hi⟩ := exists_of_forall₂ hrun hx
      exact zero _ _ _ hi
  | map kind key value =>
    rw [hs] at h
    cases kind with
    | map | object =>
      cases h
      constructor
      exact hs
  | pointer kind inner =>
    rw [hs] at h
    exact .pointer hs (zero _ _ _ h)
  | struct d fields =>
    rw [hs] at h
    obtain ⟨ms, hms, rfl⟩ := ok_map.1 h
    obtain ⟨fill, rfl, hfill⟩ := exists_fill hms
    refine .struct hs (fun f hf hvalue => ?_) fun f hf hvalue => ?_
    · refine (default _ _ _ (hfill f hf)).resolve_right ?_
      simp [hvalue]
    · refine ((default _ _ _ (hfill f hf)).resolve_left fun hown => ?_).2
      cases (hasValue_of_default hown).symm.trans hvalue
  | enum d own u vs =>
    rw [hs] at h
    cases vs with
    | nil => cases h
    | cons x vs =>
      simp only at h
      split at h
      · next hfields =>
        cases h
        exact .text hs hfields
      · cases h
  | foreign =>
    rw [hs] at h
    cases h

theorem standsIn_of_fieldDefaultWithin_succ {fuel : Nat} {f : Field} {path : Path} {v : Native}
    (zero : ∀ id path v, g.zeroWithin fuel id path = .ok v → g.IsZero id v)
    (h : g.fieldDefaultWithin (fuel + 1) f path = .ok v) : g.StandsIn f v := by
  unfold fieldDefaultWithin at h
  split at h
  · next hvalue =>
    cases h
    exact .inl hvalue
  · next hvalue =>
    refine .inr ⟨?_, zero _ _ _ h⟩
    unfold Field.hasValue
    split
    · next hsome => exact absurd hsome (hvalue _)
    · rfl

/-- The induction is on the depth of the search. -/
theorem isZero_of_zeroWithin (fuel : Nat) :
    (∀ id path v, g.zeroWithin fuel id path = .ok v → g.IsZero id v) ∧
    ∀ f path v, g.fieldDefaultWithin fuel f path = .ok v → g.StandsIn f v := by
  induction fuel with
  | zero =>
    refine ⟨fun id path v h => ?_, fun f path v h => ?_⟩
    · unfold Graph.zeroWithin at h
      cases h
    · unfold fieldDefaultWithin at h
      cases h
  | succ fuel ih =>
    exact ⟨fun id path v h => isZero_of_zeroWithin_succ ih.1 ih.2 h,
      fun f path v h => standsIn_of_fieldDefaultWithin_succ ih.1 h⟩

/-- What has a zero has one that comes to an end. -/
theorem IsZero.hasZero {v : Native} (h : g.IsZero id v) : g.HasZero id := by
  induction h with
  | scalar hs | option hs | array hs | set hs | map hs | object hs =>
    exact .intro (by rw [hs]; rfl) (by simp [hs, Shape.zeroParts])
  | @fixed id inner n items hs hlength _ ih =>
    refine .intro (by rw [hs]; rfl) fun part hp => ?_
    rw [hs] at hp
    obtain ⟨hpositive, rfl⟩ := Shape.mem_zeroParts_fixed.1 hp
    obtain ⟨x, hx⟩ := List.exists_mem_of_length_pos (l := items) (by omega)
    exact ih x hx
  | pointer hs _ ih =>
    refine .intro (by rw [hs]; rfl) fun part hp => ?_
    rw [hs] at hp
    obtain rfl := List.mem_singleton.1 hp
    exact ih
  | struct hs _ _ ih =>
    refine .intro (by rw [hs]; rfl) fun part hp => ?_
    rw [hs] at hp
    obtain ⟨f, hf, rfl⟩ := List.mem_map.1 hp
    obtain ⟨hmem, hvalue⟩ := List.mem_filter.1 hf
    exact ih f hmem (by simpa using hvalue)
  | text hs hfields => exact .intro (by rw [hs]; exact hfields) (by simp [hs, Shape.zeroParts])

theorem StandsIn.hasDefault {f : Field} {v : Native} (h : g.StandsIn f v) : g.HasDefault f :=
  h.imp hasValue_of_default fun hzero => hzero.2.hasZero

/-- A shape has no more than one zero. -/
theorem IsZero.unique {v w : Native} (hv : g.IsZero id v) (hw : g.IsZero id w) : v = w := by
  induction hv generalizing w with
  | scalar hs =>
    cases hw with
    | scalar hs' =>
      cases hs.symm.trans hs'
      rfl
    | _ => simp_all
  | option hs | array hs | set hs | map hs | object hs =>
    cases hw <;> first | rfl | simp_all
  | fixed hs hlength _ ih =>
    cases hw with
    | fixed hs' hlength' hitems =>
      cases hs.symm.trans hs'
      refine congrArg _ (List.ext_getElem (hlength.trans hlength'.symm) fun i hi hi' => ?_)
      exact ih _ (List.getElem_mem hi) (hitems _ (List.getElem_mem hi'))
    | _ => simp_all
  | pointer hs _ ih =>
    cases hw with
    | pointer hs' hw =>
      cases hs.symm.trans hs'
      exact ih hw
    | _ => simp_all
  | struct hs hvalues _ ih =>
    cases hw with
    | struct hs' hvalues' hzeros =>
      cases hs.symm.trans hs'
      refine congrArg _ (List.map_congr_left fun f hf => ?_)
      cases hvalue : f.hasValue with
      | true =>
        have hsame := (hvalues f hf hvalue).symm.trans (hvalues' f hf hvalue)
        simp_all
      | false => rw [ih f hf hvalue (hzeros f hf hvalue)]
    | _ => simp_all
  | text hs =>
    cases hw with
    | text hs' =>
      cases hs.symm.trans hs'
      rfl
    | _ => simp_all

theorem StandsIn.unique {f : Field} {v w : Native} (hv : g.StandsIn f v) (hw : g.StandsIn f w) :
    v = w := by
  rcases hv with hv | ⟨hvalue, hv⟩ <;> rcases hw with hw | ⟨hvalue', hw⟩
  · cases hv.symm.trans hw
    rfl
  · cases (hasValue_of_default hv).symm.trans hvalue'
  · cases (hasValue_of_default hw).symm.trans hvalue
  · exact hv.unique hw

/-! ## Top theorems -/

/-- Something can stand in for a field if and only if the search for it comes to an end with it. -/
theorem fieldDefault_ok_iff {f : Field} {path : Path} :
    (∃ v, g.fieldDefault f path = .ok v) ↔ g.HasDefault f := by
  constructor
  · rintro ⟨v, hv⟩
    exact ((isZero_of_zeroWithin _).2 f path v hv).hasDefault
  · intro h
    refine fieldDefaultWithin_ok fun hvalue => ?_
    have hzero : g.HasZero f.shape := h.resolve_left (by simp [hvalue])
    have := hzero.zeroDepth_le
    exact hzero.zeroWithin (by omega) path

end Graph

end ShapeSchema
