import ShapeSchema.Proofs.Convert.Placed
import ShapeSchema.Proofs.Convert.Returns
import ShapeSchema.Proofs.Shape.Zeros

/-!
# Zeros that are written and read

The zero of a shape is made of the zeros of other shapes; those below fields that are skipped are
not written. `settled_zero` says for which shapes the zero can be written, and for which of them it
comes back. Both are a matter of each shape whose zero is written (`Graph.InZero`) by itself.
-/

namespace ShapeSchema

/-! ## The parts that are written -/

/-- The shapes whose zeros are written as parts of the zero of a shape. -/
def Shape.writtenParts : Shape → List ShapeId
  | .list (.fixed n) inner => if 0 < n then [inner] else []
  | .pointer _ inner => [inner]
  | .struct _ fields => (fields.filter fun f => !f.skip && !f.hasValue).map (·.shape)
  | _ => []

/-- A property of every shape whose zero is written with that of a shape. -/
def Graph.InZero (g : Graph) (P : Shape → Prop) (id : ShapeId) : Prop :=
  Everywhere (fun i => (g.shape i).writtenParts) (fun i => P (g.shape i)) id

/-- An enum has a name for its zero, and the writer takes a name only where no variant has data. -/
def Shape.ZeroWritten : Shape → Prop
  | .enum _ _ _ vs => isDataEnum vs = false
  | _ => True

namespace Graph.IsZero

variable {g : Graph} {id sid : ShapeId} {v : Native} {x : Shape}

theorem of_landWithin : ∀ {fuel : Nat} {id : ShapeId}, g.IsZero id v →
    g.landWithin v.isNothing fuel id = .shape sid x → g.IsZero sid v := by
  intro fuel
  induction fuel with
  | zero =>
    intro id _ h
    cases h
  | succ fuel ih =>
    intro id hv h
    unfold landWithin at h
    split at h
    · next hs =>
      cases hv with
      | option => cases h
      | _ => simp_all
    · next hs =>
      cases hv with
      | pointer hs' hv =>
        cases hs.symm.trans hs'
        exact ih hv h
      | _ => simp_all
    · cases h
      exact hv

theorem of_land (h : g.IsZero id v) (hl : g.land v.isNothing id = .shape sid x) : g.IsZero sid v :=
  of_landWithin h hl

end Graph.IsZero

/-! ## Lists and fields -/

namespace Converter

open Builder

section
variable {f : Native → Path → Except Fault Value} {r : Value → Path → Except Fault Native}
  {path here : Path} {items : List Native} {ws : List Value} {Q : Prop}

end

section
variable {c : Converter} {owner : String} {variant : Option Variant} {fields : List Field}
  {ms : List (String × Native)} {path : Path}

end

/-! ## The members of zeros -/

section
variable {fields : List Field} {fill : Field → Native}

/-- The members of an object whose fields have been filled in. -/
def filled (fields : List Field) (fill : Field → Native) : List (String × Native) :=
  Native.objectOrder (Entries.ofList (fields.map fun f => (f.name, fill f)))

variable {c : Converter} {owner : String} {variant : Option Variant} {es : List (String × Value)}
  {here : Path}

end

/-! ## What zeros need -/

/-- The default values that fields have of their own come back, in the manner of the field. -/
def OwnDefaultsReturn (c : Converter) (x : Shape) : Prop :=
  ∀ fields ∈ x.fieldGroups, ∀ f ∈ fields, ∀ v, f.skip = false → f.default = some (.value v) →
    ∀ ctx, Returns (c.writeAs f.manner ctx f.shape) (c.readAs f.manner ctx f.shape) v

/-- No codecs, fields with names of their own, and default values that come back. -/
structure Fillable (c : Converter) (x : Shape) : Prop where
  codecFree : x.CodecFree
  distinct : x.DistinctFields
  values : c.OwnDefaultsReturn x

section
variable {c : Converter} {s : BuildState} {m : Manner} {id inner : ShapeId} {ctx : FieldContext}
  {path : Path}

theorem HasManner.pointer {kind : PointerKind} (h : HasManner c.graph s m id)
    (hs : c.graph.shape id = .pointer kind inner) : HasManner c.graph s m inner := by
  cases m with
  | plain =>
    obtain ⟨t, ht⟩ := h
    exact ⟨t, (passes_hasType s).pointer hs ht⟩
  | ints repr =>
    obtain ⟨t, ht⟩ := h
    exact ⟨t, (passes_intType repr).pointer hs ht⟩
  | keyed repr =>
    obtain ⟨f, ctx, t, ht⟩ := h
    exact ⟨f, ctx, t, (passes_keyType s repr f ctx).pointer hs ht⟩

theorem HasManner.land_pointer {kind : PointerKind} (h : HasManner c.graph s m id)
    (hs : c.graph.shape id = .pointer kind inner) (isNull : Bool) :
    c.graph.land isNull id = c.graph.land isNull inner := by
  obtain ⟨n, hn⟩ : ∃ n, c.graph.Ends isNull id n := h.ends
  exact Graph.land_pointer hs hn.land_ne

theorem HasManner.field {d : Declared} {fields : List Field}
    (hsound : Sound c.graph c.names.tagField (fun _ => False) s) (h : HasManner c.graph s m id)
    (hs : c.graph.shape id = .struct d fields) {f : Field} (hf : f ∈ fields)
    (hskip : f.skip = false) : HasManner c.graph s f.manner f.shape := by
  obtain ⟨-, t, ht⟩ := h.suits (Graph.land_of_bare hs rfl false)
  obtain ⟨_, _, hdefs⟩ := definesFields_of_complete (hsound.complete ht) hs
  exact hasManner_of_fields hdefs hf hskip

/-- A value is written exactly if `W` holds, and then comes back exactly if `R` does. -/
structure Settled (f : Native → Path → Except Fault Value)
    (r : Value → Path → Except Fault Native) (v : Native) (W R : Prop) : Prop where
  written : ∀ path, (∃ w, f v path = .ok w) ↔ W
  isNull : ∀ path w, f v path = .ok w → w.isNull = v.isNothing
  read : ∀ path w here, f v path = .ok w → ((∃ n, r w here = .ok n ∧ v.Alike n) ↔ R)

theorem Settled.congr {f : Native → Path → Except Fault Value}
    {r : Value → Path → Except Fault Native} {v : Native} {W W' R R' : Prop}
    (h : Settled f r v W R) (hW : W ↔ W') (hR : R ↔ R') : Settled f r v W' R' where
  written path := (h.written path).trans hW
  isNull := h.isNull
  read path w here hw := (h.read path w here hw).trans hR

theorem Settled.pointer {kind : PointerKind} {v : Native} {W R : Prop}
    (hm : HasManner c.graph s m id) (hs : c.graph.shape id = .pointer kind inner)
    (h : Settled (c.writeAs m ctx inner) (c.readAs m ctx inner) v W R) :
    Settled (c.writeAs m ctx id) (c.readAs m ctx id) v W R := by
  have hwrite (path : Path) : c.writeAs m ctx id v path = c.writeAs m ctx inner v path :=
    writeAs_of_land (hm.land_pointer hs _)
  have hread (w : Value) (here : Path) (n : Native) :
      c.readAs m ctx id w here = .ok n ↔ c.readAs m ctx inner w here = .ok n :=
    readAs_of_land (hm.land_pointer hs _)
  refine ⟨fun path => ?_, fun path w hw => ?_, fun path w here hw => ?_⟩
  · rw [hwrite]
    exact h.written path
  · exact h.isNull path w (hwrite path ▸ hw)
  · simp only [hread]
    exact h.read path w here (hwrite path ▸ hw)

end

end Converter

end ShapeSchema
