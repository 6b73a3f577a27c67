import ShapeSchema.Proofs.Convert.Reading
import ShapeSchema.Proofs.Convert.Taken
import ShapeSchema.Proofs.Convert.WellNamed

/-!
# Values that are read alike once they are coerced

Coercion `Yields` native data from a value if it makes something of the value that is read as them.
It does so for whatever the reader reads from the value itself, at the type of a shape without
codecs and constraints, as long as the value is well named (`yields`): the reader and the coercer go
over the same value, and each step of the one is matched by a step of the other. The induction is on
the size of the value.
-/

namespace ShapeSchema

/-- Coercion makes a value at a type into one that a reader reads as `n`. -/
def Coercer.Yields (c : Coercer) (run : Value → Except Fault Native) (v : Value) (t : Ty Authored)
    (n : Native) : Prop := ∃ w, c.Takes v w t ∧ run w = .ok n

theorem Coercer.Yields.imp {c : Coercer} {run run' : Value → Except Fault Native} {v : Value}
    {t : Ty Authored} {n : Native} (h : c.Yields run v t n)
    (hrun : ∀ w, w.isNull = v.isNull → run w = .ok n → run' w = .ok n) : c.Yields run' v t n := by
  obtain ⟨w, htakes, hw⟩ := h
  exact ⟨w, htakes, hrun w htakes.isNull hw⟩

/-- Neither codecs nor constraints, and fields with names of their own. -/
structure Shape.Unadorned (x : Shape) : Prop where
  codecFree : x.CodecFree
  unruled : x.Unruled
  fields : x.DistinctFields

instance : DecidablePred Shape.Unadorned := fun x =>
  decidable_of_iff (x.CodecFree ∧ x.Unruled ∧ x.DistinctFields)
    ⟨fun h => ⟨h.1, h.2.1, h.2.2⟩, fun h => ⟨h.codecFree, h.unruled, h.fields⟩⟩

namespace Converter

open Builder

section
variable {r : Converter} {c : Coercer} {s : BuildState} {v : Value} {path : Path} {n : Native}

/-- What coercion yields at the shape that options and pointers lead to, it yields before them. -/
theorem yields_of_land {T : ShapeId → Ty Authored → Prop} (hT : Passes r.graph T) {id : ShapeId}
    {t : Ty Authored} {run : Value → Except Fault Native} (ht : T id t)
    (hrules : t.ann.constraints = []) (hrun : run v = .ok n)
    (hends : r.graph.land v.isNull id ≠ .endless)
    (hshape : ∀ {sid x u}, r.graph.land v.isNull id = .shape sid x → r.graph.LandsAt id sid x →
      T sid u → c.Yields run v u n) : c.Yields run v t n := by
  cases hl : r.graph.land v.isNull id with
  | null =>
    obtain rfl := Value.eq_null_of_isNull (Graph.isNull_of_landWithin hl)
    obtain ⟨u, rfl⟩ := hT.land_null hl ht
    exact ⟨.null, Coercer.takes_null_optional hrules, hrun⟩
  | endless => exact absurd hl hends
  | shape sid x =>
    obtain ⟨u, hu, lift⟩ := hT.land hl ht
    refine lift (c.Yields run v · n) (fun y hy => ?_) (hshape hl (Graph.landsAt_of_land hl) hu)
    obtain ⟨w, htakes, hw⟩ := hy
    exact ⟨w, htakes.optional, hw⟩

/-! ## Scalars and whole numbers -/

theorem yields_scalar {x : Scalar} {t : Ty Authored} (ht : scalarType? x = some t)
    (hread : readScalar x v path = .ok n) : c.Yields (readScalar x · path) v t n := by
  have same {p : Prim} (hp : t = .prim p {})
      (h : ∀ t here, (Coercer.coercePrim p t v here).Passes v) (hv : v.isNull = false) :
      c.Yields (readScalar x · path) v t n :=
    ⟨v, hp ▸ Coercer.takes_solid rfl hv hv h, hread⟩
  have float {m : Int} (hp : t = .prim .float {}) (hv : v = .int m)
      (hx : readScalar x (.float (.ofInt m)) path = .ok n) :
      c.Yields (readScalar x · path) v t n := by
    subst hp hv
    refine ⟨.float (.ofInt m), Coercer.takes_solid rfl rfl rfl fun _ _ => ?_, hx⟩
    exact (Checked.passes_flag _).bind (Checked.passes_pure _)
  unfold readScalar at hread
  split at hread
  · exact same (Option.some.inj ht).symm (fun _ _ => Checked.passes_pure _) rfl
  · exact same (Option.some.inj ht).symm (fun _ _ => Checked.passes_pure _) rfl
  · exact same (Option.some.inj ht).symm (fun _ _ => Checked.passes_pure _) rfl
  · exact same (Option.some.inj ht).symm (fun _ _ => Checked.passes_pure _) rfl
  · exact same (Option.some.inj ht).symm (fun _ _ => Checked.passes_pure _) rfl
  · exact float (Option.some.inj ht).symm rfl hread
  · exact float (Option.some.inj ht).symm rfl hread
  · cases ht
    exact ⟨.null, Coercer.takes_prim rfl rfl (fun _ => rfl) fun _ _ => Checked.passes_pure _, hread⟩
  · split at hread
    · next hint =>
      refine same (p := .int) ?_ (fun _ _ => Checked.passes_pure _) rfl
      cases x <;> first
        | exact (Option.some.inj ht).symm
        | exact absurd hint (by decide)
        | cases ht
    · cases hread
  · cases hread

theorem yields_intAs {repr : IntRepr} {x : Scalar} (hread : readIntAs repr x v path = .ok n) :
    c.Yields (readIntAs repr x · path) v (.prim (reprPrim repr) {}) n := by
  refine ⟨v, ?_, hread⟩
  unfold readIntAs at hread
  split at hread
  · exact Coercer.takes_solid rfl rfl rfl fun _ _ => Checked.passes_pure _
  · cases hread
  · exact Coercer.takes_solid rfl rfl rfl fun _ _ => Checked.passes_pure _
  · cases hread

/-! ## Lists -/

/-- A list is read alike if its items are. -/
theorem yields_list {kind : Collection} {t : Ty Authored}
    {f : Value → Path → Except Fault Native} {run : Value → Except Fault Native}
    (hrun : ∀ w, w.isNull = v.isNull → (run w = .ok n ↔ ∃ items ns, w.items? = some items ∧
      kind.FitsLength items.length ∧ ReadsItems f path items ns ∧ n = collect kind ns))
    (hitems : ∀ items, v.items? = some items → ∀ x ∈ items, ∀ here m, f x here = .ok m →
      c.Yields (f · here) x t m)
    (hread : run v = .ok n) : c.Yields run v (.list t {}) n := by
  obtain ⟨items, ns, hv, hlen, hns, rfl⟩ := (hrun v rfl).1 hread
  obtain ⟨ws, htakes, hws⟩ : ∃ ws, List.Forall₂ (fun x y => c.Takes x y t) items ws ∧
      ReadsItems f path ws ns :=
    exists_zipIdx_between hns fun x hx i m hm => hitems items hv x hx (path.index i) m hm
  refine ⟨.list ws, Coercer.takes_list rfl hv htakes, (hrun _ ?_).2 ?_⟩
  · rw [Value.isNull_of_items? hv]
    rfl
  · exact ⟨ws, ns, rfl, htakes.length_eq ▸ hlen, hws, rfl⟩

/-! ## Maps -/

/-- A map is read alike if its values are. -/
theorem yields_map {kind : Keyed} {key t : Ty Authored} {K : String → Native → Prop}
    {f : Value → Path → Except Fault Native} {run : Value → Except Fault Native}
    (hrun : ∀ w, w.isNull = v.isNull → (run w = .ok n ↔ ∃ es ns, w.entries? = some es ∧
      List.Forall₂ (fun p n => K p.1 n.1 ∧ f p.2 (path.key p.1) = .ok n.2) es ns ∧
      n = collectEntries kind ns))
    (nd : ∀ es, v.entries? = some es → (Entries.keys es).Nodup)
    (hvalues : ∀ es, v.entries? = some es → ∀ p ∈ es, ∀ here m, f p.2 here = .ok m →
      c.Yields (f · here) p.2 t m)
    (hread : run v = .ok n) : c.Yields run v (.map key t {}) n := by
  obtain ⟨es, ns, hv, hns, rfl⟩ := (hrun v rfl).1 hread
  have listed := (List.forall₂_and_left es ns).2 ⟨fun _ hp => hp, hns⟩
  obtain ⟨ws, hws, htakes⟩ : ∃ ws : List (String × Value),
      List.Forall₂ (fun n q => K q.1 n.1 ∧ f q.2 (path.key q.1) = .ok n.2) ns ws ∧
      List.Forall₂ (fun p q => q.1 = p.1 ∧ c.Takes p.2 q.2 t) es ws := by
    refine exists_forall₂ (listed.imp ?_)
    rintro p m ⟨hp, hk, hm⟩
    obtain ⟨w, htakes, hw⟩ := hvalues es hv p hp _ _ hm
    exact ⟨(p.1, w), ⟨hk, hw⟩, rfl, htakes⟩
  refine ⟨.map ws, Coercer.takes_map rfl hv (nd es hv) htakes, (hrun _ ?_).2 ?_⟩
  · rw [Value.isNull_of_entries? hv]
    rfl
  · exact ⟨ws, ns, rfl, hws.flip, rfl⟩

/-- Whole numbers written in another way are read alike. -/
theorem yields_ints {repr : IntRepr} (v : Value) : ∀ {id : ShapeId} {t : Ty Authored} {path : Path}
    {n : Native}, IntType r.graph repr id t → r.readInts repr id v path = .ok n →
    c.Yields (r.readInts repr id · path) v t n := by
  induction hn : sizeOf v using Nat.strongRecOn generalizing v with
  | ind m ih =>
  intro id t path n ht hread
  refine yields_of_land (passes_intType repr) ht ht.unruled hread (fun hl => ?_) ?_
  · rw [readInts, hl] at hread
    cases hread
  intro sid x u hl hlands hu
  have hshape := hlands.shape
  cases hu with
  | option hs => exact absurd hs hlands.ne_option
  | pointer hs => exact absurd hs hlands.ne_pointer
  | list hs hinner =>
    obtain rfl := hshape.symm.trans hs
    refine yields_list (fun w hw => readInts_list_ok (by rw [hw]; exact hl)) ?_ hread
    intro items hitems y hy here m hm
    exact ih _ (hn ▸ Value.sizeOf_item hitems hy) y rfl hinner hm
  | scalar hs hint =>
    obtain rfl := hshape.symm.trans hs
    rw [readInts_scalar hl] at hread
    refine (yields_intAs hread).imp fun w hw hrun => ?_
    rwa [readInts_scalar (by rw [hw]; exact hl)]

/-! ## Fields -/

/-- A value is read alike at every shape that uses its names well. -/
def YieldsRead (r : Converter) (c : Coercer) (s : BuildState) (v : Value) : Prop :=
  ∀ {id : ShapeId} {t : Ty Authored} {path : Path} {n : Native},
    r.graph.Below Shape.Unadorned id → HasType r.graph s id t →
    WellNamed r.graph r.names.tagField none id v → r.read id v path = .ok n →
    c.Yields (r.read id · path) v t n

/-- The same below a field that writes maps in another way. -/
def YieldsKeyed (r : Converter) (c : Coercer) (s : BuildState) (v : Value) : Prop :=
  ∀ (oid : ShapeId) (ctx : FieldContext) {repr : KeyRepr} {f : Field} {owner : String}
    {variant : Option Variant} {id : ShapeId} {t : Ty Authored} {path : Path} {n : Native},
    r.graph.Below Shape.Unadorned id →
    (repr = .pairs → (r.graph.mapBelow? f.shape).isSome = true →
      ClassSource.entry oid owner variant f ∈ classSources r.graph s.names) →
    KeyType r.graph s repr f (ownerContext owner variant f) id t →
    WellNamed r.graph r.names.tagField (some repr) id v →
    r.readKeyed repr ctx id v path = .ok n → c.Yields (r.readKeyed repr ctx id · path) v t n

/-- Every part of a value is read alike in both ways. -/
def YieldsBelow (r : Converter) (c : Coercer) (s : BuildState) (v : Value) : Prop :=
  ∀ x : Value, sizeOf x < sizeOf v → YieldsRead r c s x ∧ YieldsKeyed r c s x

theorem yields_field (hv : YieldsRead r c s v) (hk : YieldsKeyed r c s v) {oid : ShapeId}
    {owner : String} {variant : Option Variant} {f : Field} {d : FieldDef} (ctx : FieldContext)
    (hcodec : f.codec = none) (hskip : f.skip = false) (hrules : f.checks = [] ∧ f.asserts = [])
    (hbelow : r.graph.Below Shape.Unadorned f.shape)
    (hentry : r.graph.writesPairs f = true →
      ClassSource.entry oid owner variant f ∈ classSources r.graph s.names)
    (hd : DefinesField r.graph s owner variant f d)
    (hnamed : f.intRepr = none → WellNamed r.graph r.names.tagField f.keyRepr f.shape v)
    (hread : r.readField f ctx v path = .ok n) :
    c.Yields (r.readField f ctx · path) v d.type n := by
  obtain ⟨t, ht, rfl⟩ := hd.bare
  have hnull : (v.isNull && !r.graph.isOption f.shape) = false := by
    rw [readField, hcodec] at hread
    cases hn : v.isNull && !r.graph.isOption f.shape with
    | false => rfl
    | true =>
      rw [hn] at hread
      cases hread
  have hbare : c.Yields (r.readField f ctx · path) v t n := by
    cases ht with
    | @ints repr _ hr hi =>
      have hrun (w : Value) (hw : w.isNull = v.isNull) :
          r.readField f ctx w path = r.readInts repr f.shape w path := by
        rw [readField, hcodec, hw, hnull, hr]
        rfl
      rw [hrun v rfl] at hread
      exact (yields_ints v hi hread).imp fun w hw h => (hrun w hw).trans h
    | @keyed repr _ hi hr hkey =>
      have hrun (w : Value) (hw : w.isNull = v.isNull) :
          r.readField f ctx w path = r.readKeyed repr ctx f.shape w path := by
        rw [readField, hcodec, hw, hnull, hi, hr]
        rfl
      rw [hrun v rfl] at hread
      refine (hk oid ctx hbelow ?_ hkey (hr ▸ hnamed hi) hread).imp
        fun w hw h => (hrun w hw).trans h
      rintro rfl hmap
      refine hentry ?_
      unfold Graph.writesPairs
      rw [hskip, hi, hr, hmap]
      rfl
    | plain hi hr ht =>
      have hrun (w : Value) (hw : w.isNull = v.isNull) :
          r.readField f ctx w path = r.read f.shape w path := by
        rw [readField, hcodec, hw, hnull, hi, hr]
        rfl
      rw [hrun v rfl] at hread
      exact (hv hbelow ht (hr ▸ hnamed hi) hread).imp fun w hw h => (hrun w hw).trans h
  rw [type_of_unruled hrules]
  split
  · obtain ⟨w, htakes, hw⟩ := hbare
    exact ⟨w, htakes.optional, hw⟩
  · exact hbare

/-- Null of an option is read as null, in whatever way its field is written. -/
theorem readField_null {f : Field} (ctx : FieldContext) (hcodec : f.codec = none)
    (hopt : r.graph.isOption f.shape = true) : r.readField f ctx .null path = .ok .null := by
  have hl : r.graph.land Value.null.isNull f.shape = .null := Graph.land_of_isOption hopt
  rw [readField, hcodec, hopt]
  simp only [Bool.not_true, Bool.and_false, Bool.false_eq_true, if_false]
  split
  · rw [readInts, hl]
  · rw [readKeyed, hl]
  · rw [read, hl]
    rintro _ ⟨⟩

/-- The type of an option is optional. -/
theorem optional_of_isOption {f : Field} {ctx : FieldContext} {t : Ty Authored}
    (ht : BareType r.graph s f ctx t) (hopt : r.graph.isOption f.shape = true) :
    ∃ u : Ty Authored, t = u.optional := by
  have hl : r.graph.land true f.shape = .null := Graph.land_of_isOption hopt
  cases ht with
  | ints _ hi => exact (passes_intType _).land_null hl hi
  | keyed _ _ hk => exact (passes_keyType s _ f ctx).land_null hl hk
  | plain _ _ hp => exact (passes_hasType s).land_null hl hp

/-- Coercion makes something of a field that is read as `n` under the field's own name. -/
def YieldsMember (r : Converter) (c : Coercer) (owner : String) (variant : Option Variant)
    (es : List (String × Value)) (path : Path) (f : Field) (d : FieldDef) (n : Native) : Prop :=
  ∃ y, c.TakesField es d y ∧ ∀ es', f.lookup? es' = some y →
    r.ReadsMember owner variant es' path f n

theorem yields_member {own owner : String} {x variant : Option Variant} {f : Field}
    {d : FieldDef} {es : List (String × Value)} (hcodec : f.codec = none) (hskip : f.skip = false)
    (hrules : f.checks = [] ∧ f.asserts = []) (hbelow : r.graph.Below Shape.Unadorned f.shape)
    (hkept : RulesKept r.graph s.visited)
    (hlookup : (Name.of f.name f.rendered).lookup? es = f.lookup? es)
    (hd : DefinesField r.graph s own x f d)
    (hfound : ∀ y, f.lookup? es = some y → ∀ here m,
      r.readField f (ownerContext owner variant f) y here = .ok m →
      c.Yields (r.readField f (ownerContext owner variant f) · here) y d.type m)
    (hread : r.ReadsMember owner variant es path f n) :
    r.YieldsMember c owner variant es path f d n := by
  obtain ⟨t, ht, rfl⟩ := hd.bare
  have hbare : t.ann.constraints = [] := ht.unruled hkept fun i hi => (hbelow i hi).unruled
  -- a missing field becomes a null of an optional type
  have absent (u : Ty Authored) (hu : (definedField f t).type = u.optional)
      (hconstraints : u.optional.ann.constraints = [])
      (hnull : ∀ y, f.lookup? es = some y → y.isNull = true) :
      c.TakesField es (definedField f t) .null := by
    have htakes := Coercer.takes_null_optional (c := c) hconstraints
    rw [← hu] at htakes
    cases hl : f.lookup? es with
    | none => exact .missing (hlookup.trans hl) (htakes.acceptsNull rfl)
    | some y =>
      obtain rfl := Value.eq_null_of_isNull (hnull y hl)
      exact .found (hlookup.trans hl) htakes
  cases hread with
  | filled h hn =>
    obtain ⟨hdefault, hnull⟩ := h.resolve_left (by rw [hskip]; exact Bool.false_ne_true)
    refine ⟨.null, absent t ?_ (constraints_optional hbare) hnull, fun es' hes' => ?_⟩
    · rw [type_of_unruled hrules, if_pos hdefault]
    · refine .filled (.inr ⟨hdefault, fun y hy => ?_⟩) hn
      rw [← Option.some.inj (hes'.symm.trans hy)]
      rfl
  | missing _ hdefault hmissing _ hopt =>
    obtain ⟨u, rfl⟩ := optional_of_isOption ht hopt
    refine ⟨.null, absent u ?_ hbare ?_, fun es' hes' => ?_⟩
    · rw [type_of_unruled hrules, hdefault]
      rfl
    · rw [hmissing]
      rintro _ ⟨⟩
    · exact .found hskip hes' (fun _ => hdefault) (readField_null _ hcodec hopt)
  | @found y _ _ hy hnull hrun =>
    obtain ⟨w, htakes, hw⟩ := hfound y hy _ _ hrun
    refine ⟨w, .found (hlookup.trans hy) htakes, fun es' hes' => ?_⟩
    exact .found hskip hes' (fun hn => hnull (htakes.isNull ▸ hn)) hw

/-- What coercion makes of the fields of an object is read alike if it stands under their names. -/
theorem taken_fields {own owner : String} {x variant : Option Variant} {es : List (String × Value)}
    {fields : List Field} {ds : List FieldDef} {ns : List (String × Native)}
    (hfields : ∀ f ∈ fields, f.skip = false → ∀ d n, DefinesField r.graph s own x f d →
      r.ReadsMember owner variant es path f n → r.YieldsMember c owner variant es path f d n)
    (hd : DefinesFields r.graph s own x fields ds)
    (hread : List.Forall₂ (fun f n => n.1 = f.name ∧ r.ReadsMember owner variant es path f n.2)
      fields ns) :
    ∃ fs : List (String × Value),
      List.Forall₂ (fun d p => p.1 = d.name.real ∧ c.TakesField es d p.2) ds fs ∧
      ∀ es', (∀ f ∈ fields, f.skip = false → ∀ y, (f.name, y) ∈ fs → f.lookup? es' = some y) →
        List.Forall₂ (fun f n => n.1 = f.name ∧ r.ReadsMember owner variant es' path f n.2)
          fields ns := by
  induction fields generalizing ds ns with
  | nil =>
    cases hd
    cases hread
    exact ⟨[], .nil, fun _ _ => .nil⟩
  | cons f fields ih =>
    cases hread with
    | cons hfirst hrest =>
    have others := fun f' hf' => hfields f' (List.mem_cons_of_mem f hf')
    cases hskip : f.skip with
    | true =>
      -- a skipped field has no definition and is filled in again
      have hd' : DefinesFields r.graph s own x fields ds := by
        unfold DefinesFields at hd
        rwa [List.filter_cons_of_neg (by simp [hskip])] at hd
      obtain ⟨fs, hfs, again⟩ := ih others hd' hrest
      refine ⟨fs, hfs, fun es' hes' => .cons ⟨hfirst.1, ?_⟩ (again es' fun f' hf' =>
        hes' f' (List.mem_cons_of_mem f hf'))⟩
      exact .filled (.inl hskip) ((readsMember_filled (.inl hskip)).1 hfirst.2)
    | false =>
      unfold DefinesFields at hd
      rw [List.filter_cons_of_pos (by simp [hskip])] at hd
      cases hd with
      | cons hdef hdefs =>
      obtain ⟨y, htakes, hagain⟩ := hfields f List.mem_cons_self hskip _ _ hdef hfirst.2
      obtain ⟨fs, hfs, again⟩ := ih others hdefs hrest
      refine ⟨(f.name, y) :: fs, .cons ⟨?_, htakes⟩ hfs, fun es' hes' => .cons ⟨hfirst.1, ?_⟩
        (again es' fun f' hf' hskip' y' hy' => ?_)⟩
      · rw [hdef.name]
        rfl
      · exact hagain es' (hes' f List.mem_cons_self hskip y List.mem_cons_self)
      · exact hes' f' (List.mem_cons_of_mem f hf') hskip' y' (List.mem_cons_of_mem _ hy')

end

/-! ## Structs and enums -/

/-- A reader and a coercion that go by one schema, which was built without name clashes. -/
structure Agrees (r : Converter) (c : Coercer) (s : BuildState) : Prop where
  schema : ∃ target, c.schema = s.registry.freeze target
  sound : Sound r.graph r.names.tagField (fun _ => False) s
  classes : DistinctClasses r.graph s.names
  rules : RulesKept r.graph s.visited

section
variable {r : Converter} {c : Coercer} {s : BuildState} {v : Value} {path : Path} {n : Native}

/-- The members of an object are read alike. -/
theorem yields_members (hag : Agrees r c s) (ih : YieldsBelow r c s v) {oid : ShapeId}
    {own owner : String} {x variant : Option Variant} {fields : List Field} {ds : List FieldDef}
    {es : List (String × Value)} {ns : List (String × Native)}
    (hbelow : r.graph.Below Shape.Unadorned oid) (howned : Owned r.graph s oid own x fields)
    (hes : v.entries? = some es) (hnamed : WellNamedFields r.graph r.names.tagField fields es)
    (hd : DefinesFields r.graph s own x fields ds)
    (hread : List.Forall₂ (fun f n => n.1 = f.name ∧ r.ReadsMember owner variant es path f n.2)
      fields ns) :
    ∃ fs : List (String × Value),
      List.Forall₂ (fun d p => p.1 = d.name.real ∧ c.TakesField es d p.2) ds fs ∧
      (Entries.keys fs).Nodup ∧ (∀ k ∈ Entries.keys fs, ∃ f ∈ fields, f.name = k) ∧
      ∀ es', (∀ f ∈ fields, ∀ y, Entries.find? fs f.name = some y →
          Entries.find? es' f.name = some y) →
        List.Forall₂ (fun f n => n.1 = f.name ∧ r.ReadsMember owner variant es' path f n.2)
          fields ns := by
  cases hnamed with
  | fields hlookup hparts =>
  have hgroup := howned.group
  have hself := hbelow.self
  have hmember : ∀ f ∈ fields, f.skip = false → ∀ d m, DefinesField r.graph s own x f d →
      r.ReadsMember owner variant es path f m → r.YieldsMember c owner variant es path f d m := by
    intro f hf hskip d m hdef hm
    have hfbelow := hbelow.child (Shape.mem_children_of_field hgroup hf)
    have hcodec := hself.codecFree fields hgroup f hf
    have hrules := hself.unruled.fields fields hgroup f hf
    refine yields_member hcodec hskip hrules hfbelow hag.rules (hlookup f hf hskip) hdef
      (fun y hy here m hrun => ?_) hm
    obtain ⟨key, hmem⟩ := Field.mem_of_lookup? hy
    obtain ⟨hv, hk⟩ := ih y (Value.sizeOf_entry hes hmem)
    exact yields_field hv hk _ hcodec hskip hrules hfbelow (howned.entries f hf) hdef
      (fun hi => hparts f hf hskip hi y hy) hrun
  obtain ⟨fs, hfs, again⟩ := taken_fields hmember hd hread
  have hkeys : Entries.keys fs = (fields.filter fun f => !f.skip).map (·.name) := by
    rw [← map_real_fieldNames, ← names_of_definesFields hd, List.map_map]
    exact map_eq_of_forall₂ (hfs.imp fun _ _ hp => hp.1)
  have nd : (Entries.keys fs).Nodup := by
    rw [hkeys]
    exact (hself.fields fields hgroup).sublist (List.filter_sublist.map _)
  refine ⟨fs, hfs, nd, fun k hk => ?_, fun es' hes' => again es' fun f hf _ y hy => ?_⟩
  · rw [hkeys] at hk
    obtain ⟨f, hf, rfl⟩ := List.mem_map.1 hk
    exact ⟨f, (List.mem_filter.1 hf).1, rfl⟩
  · unfold Field.lookup?
    rw [hes' f hf y (Entries.find?_eq_some_of_mem nd hy)]
    rfl

theorem yields_struct (hag : Agrees r c s) (ih : YieldsBelow r c s v) {id sid : ShapeId}
    {d : Declared} {fields : List Field} {name : String}
    (hl : r.graph.land v.isNull id = .shape sid (.struct d fields))
    (hbelow : r.graph.Below Shape.Unadorned sid) (hn : Entries.find? s.names sid = some name)
    (hclass : HasClass s name) (hnamed : WellNamed r.graph r.names.tagField none id v)
    (hread : r.read id v path = .ok n) :
    c.Yields (r.read id · path) v (.classRef name .complete false {}) n := by
  obtain ⟨target, hschema⟩ := hag.schema
  have hs := (Graph.landsAt_of_land hl).shape
  obtain ⟨hsrc, howned⟩ := owned_struct hs hn
  obtain ⟨cd, hfound, hdef⟩ := found_definition target hag.sound hag.classes hsrc hclass
  have hrules : cd.constraints = [] := by
    rw [hdef.constraints]
    exact declaredRules_of_unruled hbelow.self.unruled
  have hfields : DefinesFields r.graph s name none fields cd.fields := by
    have := hdef.fields
    generalize cd.fields = ds at this
    cases this with
    | struct hs' hfields =>
    obtain ⟨rfl, rfl⟩ := Shape.struct.inj (hs.symm.trans hs')
    exact hfields
  obtain ⟨es, ns, hes, hns, rfl⟩ := (read_struct_ok hl).1 hread
  cases hnamed.at hl with
  | struct hnamed =>
  obtain ⟨fs, htakes, nd, -, again⟩ :=
    yields_members hag ih hbelow howned hes (hnamed es hes) hfields hns
  rw [Value.isNull_of_entries? hes] at hl
  exact ⟨.classOf name fs,
    Coercer.takes_class rfl (by rw [hschema]; exact hfound) hrules hes nd htakes,
    (read_struct_ok hl).2 ⟨fs, ns, rfl, again fs fun _ _ _ h => h, rfl⟩⟩

theorem matches_string_iff {a : String} {t : Value} :
    (Literal.string a).matches t = true ↔ t.variantName? = some a := by
  cases t <;> simp [Literal.matches, Value.variantName?]

theorem yields_texts {id sid : ShapeId} {d : Declared} {own : Option String} {vs : List Variant}
    (hl : r.graph.land v.isNull id = .shape sid (.enum d own true vs))
    (hdata : isDataEnum vs = false) (hnamed : WellNamed r.graph r.names.tagField none id v)
    (hread : r.read id v path = .ok n) :
    c.Yields (r.read id · path) v
      (Ty.unionOf (vs.map fun x => Ty.literal (.string x.rendered) {}) {}) n := by
  obtain ⟨name, -, hname, -, -⟩ := (read_texts_ok hl hdata).1 hread
  have hshown : ∃ x ∈ vs, x.rendered = name := by
    cases hnamed.at hl with
    | data hd => cases hd.symm.trans hdata
    | texts _ h => exact h name hname
  obtain ⟨x, before, after, rfl, rfl, hbefore, -⟩ := split_shown hshown
  refine ⟨v, ?_, hread⟩
  rw [unionOf_map fun _ => rfl, List.map_append, List.map_cons]
  refine Coercer.takes_union rfl (Value.isNull_of_variantName? hname) (fun t ht => ?_)
    (Coercer.takes_literal rfl (matches_string_iff.2 hname))
  obtain ⟨y, hy, rfl⟩ := List.mem_map.1 ht
  refine Coercer.refuses_literal (Bool.eq_false_iff.2 fun hm => hbefore y hy ?_)
  exact Option.some.inj ((matches_string_iff.1 hm).symm.trans hname)

theorem yields_units (hag : Agrees r c s) {id sid : ShapeId} {d : Declared} {own : Option String}
    {vs : List Variant} {name : String}
    (hl : r.graph.land v.isNull id = .shape sid (.enum d own false vs))
    (hdata : isDataEnum vs = false) (hn : Entries.find? s.names sid = some name)
    (he : ∃ e ∈ s.registry.enums, e.name.real = name)
    (hnamed : WellNamed r.graph r.names.tagField none id v) (hread : r.read id v path = .ok n) :
    c.Yields (r.read id · path) v (.enumRef name false {}) n := by
  obtain ⟨target, hschema⟩ := hag.schema
  have hs := (Graph.landsAt_of_land hl).shape
  obtain ⟨e, hfound, d', own', u', vs', hs', rfl⟩ := found_enum target hag.sound hn he
  obtain ⟨rfl, rfl, rfl, rfl⟩ := Shape.enum.inj (hs.symm.trans hs')
  obtain ⟨key, x, hkey, hx, rfl⟩ := (read_texts_ok hl hdata).1 hread
  have htells : Variant.Tells vs key := by
    cases hnamed.at hl with
    | data hd => cases hd.symm.trans hdata
    | units _ h => exact h key hkey
  obtain ⟨z, y, hz, hy, hname⟩ := match?_of_tells _ htells hx
  rw [Value.isNull_of_variantName? hkey] at hl
  refine ⟨.enumOf name z.name.real,
    Coercer.takes_enumRef rfl (by rw [hschema]; exact hfound) hkey hz,
    (read_texts_ok hl hdata).2 ⟨_, y, rfl, hy, by rw [hname]⟩⟩

theorem lookup?_tagDef {tag : String} {es : List (String × Value)} {t : Value}
    (h : Entries.find? es tag = some t) (x : Variant) :
    (tagDef tag x).name.lookup? es = some t := by
  unfold tagDef Name.lookup?
  rw [h]
  rfl

/-- The class of a variant refuses the tag of another. -/
theorem refuses_variant {tag name shown : String} {x : Variant} {cd : ClassDef}
    {ds : List FieldDef} {es : List (String × Value)} {t : Value}
    (hfound : c.schema.findClass? (variantClassName name x) .complete = some cd)
    (hcd : cd.fields = tagDef tag x :: ds) (hes : v.entries? = some es)
    (ht : Entries.find? es tag = some t) (hshown : t.variantName? = some shown)
    (hne : x.rendered ≠ shown) :
    c.Refuses v (.classRef (variantClassName name x) .complete false {}) := by
  refine Coercer.refuses_class hfound hcd hes (lookup?_tagDef ht x) ?_
    (Coercer.refuses_literal (Bool.eq_false_iff.2 fun hm => hne ?_))
  · rintro rfl
    cases hshown
  · exact Option.some.inj ((matches_string_iff.1 hm).symm.trans hshown)

theorem yields_data (hag : Agrees r c s) (ih : YieldsBelow r c s v) {id sid : ShapeId}
    {d : Declared} {own : Option String} {u : Bool} {vs : List Variant} {name : String}
    (hl : r.graph.land v.isNull id = .shape sid (.enum d own u vs)) (hdata : isDataEnum vs = true)
    (hbelow : r.graph.Below Shape.Unadorned sid) (hn : Entries.find? s.names sid = some name)
    (hvariants : ∀ x ∈ vs, HasVariant r.graph (own.getD r.names.tagField) s name x)
    (hnamed : WellNamed r.graph r.names.tagField none id v) (hread : r.read id v path = .ok n) :
    c.Yields (r.read id · path) v
      (Ty.unionOf (vs.map fun x => Ty.classRef (variantClassName name x) .complete false {}) {})
      n := by
  obtain ⟨target, hschema⟩ := hag.schema
  have hs := (Graph.landsAt_of_land hl).shape
  have found (y : Variant) (hy : y ∈ vs) : ∃ cd ds,
      c.schema.findClass? (variantClassName name y) .complete = some cd ∧ cd.constraints = [] ∧
      cd.fields = tagDef (own.getD r.names.tagField) y :: ds ∧
      TagFree (own.getD r.names.tagField) y.fields ∧
      DefinesFields r.graph s name (some y) y.fields ds := by
    rw [hschema]
    exact found_variant target hag.sound hag.classes hs hdata hn (hvariants y hy).registered hy
  obtain ⟨es, t, x, ns, hes, ht, hx, hns, rfl⟩ := (read_data_ok hl hdata).1 hread
  obtain ⟨shown, hshown, hx⟩ := Option.bind_eq_some_iff.1 hx
  obtain ⟨htold, hparts⟩ : (∃ y ∈ vs, y.rendered = shown) ∧
      WellNamedFields r.graph r.names.tagField x.fields es := by
    cases hnamed.at hl with
    | data _ htold hparts =>
      exact ⟨htold es t shown hes ht hshown, hparts es t shown hes ht hshown x hx⟩
    | texts hd => cases hd.symm.trans hdata
    | units hd => cases hd.symm.trans hdata
  obtain ⟨x', before, after, hvs, rfl, hbefore, hmatch⟩ := split_shown htold
  obtain rfl := Option.some.inj (hmatch.symm.trans hx)
  have hmem : x' ∈ vs := by
    rw [hvs]
    simp
  obtain ⟨cd, ds, hfound, hrules, hcd, hfree, hdefs⟩ := found x' hmem
  obtain ⟨-, howned⟩ := owned_variant hs hdata hmem hn
  obtain ⟨fs, htakes, nd, hkeys, again⟩ := yields_members hag ih hbelow howned hes hparts hdefs hns
  have hnull : v.isNull = false := Value.isNull_of_entries? hes
  refine ⟨.classOf (variantClassName name x') ((own.getD r.names.tagField, t) :: fs), ?_, ?_⟩
  · rw [unionOf_map fun _ => rfl, hvs, List.map_append, List.map_cons]
    refine Coercer.takes_union rfl hnull (fun u hu => ?_)
      (Coercer.takes_class rfl hfound hrules hes ?_ ?_)
    · obtain ⟨y, hy, rfl⟩ := List.mem_map.1 hu
      obtain ⟨cd', ds', hfound', -, hcd', -⟩ := found y (hvs ▸ List.mem_append_left _ hy)
      exact refuses_variant hfound' hcd' hes ht hshown (hbefore y hy)
    · refine List.nodup_cons.2 ⟨fun hk => ?_, nd⟩
      obtain ⟨f, hf, hname⟩ := hkeys _ hk
      exact (hfree f hf).1 hname
    · rw [hcd]
      refine .cons ⟨rfl, .found (lookup?_tagDef ht x') ?_⟩ htakes
      exact Coercer.takes_literal rfl (matches_string_iff.2 hshown)
  · rw [hnull] at hl
    refine (read_data_ok hl hdata).2 ⟨_, t, x', ns, rfl, ?_, ?_, again _ fun f hf y hy => ?_, rfl⟩
    · rw [Entries.find?_cons, if_pos (beq_self_eq_true _)]
    · rw [hshown]
      exact hx
    · rw [Entries.find?_cons, if_neg (by simpa using (hfree f hf).1.symm)]
      exact hy

theorem yields_declared (hag : Agrees r c s) (ih : YieldsBelow r c s v) {id sid : ShapeId}
    {x : Shape} {t : Ty Authored} (hl : r.graph.land v.isNull id = .shape sid x)
    (hbelow : r.graph.Below Shape.Unadorned sid)
    (ht : Complete r.graph r.names.tagField s sid t) (hrules : t.ann.constraints = [])
    (hnamed : WellNamed r.graph r.names.tagField none id v) (hread : r.read id v path = .ok n) :
    c.Yields (r.read id · path) v t n := by
  have hs := (Graph.landsAt_of_land hl).shape
  cases ht with
  | struct hs' hn hclass =>
    obtain rfl := hs.symm.trans hs'
    rw [withConstraints_of_unruled hrules]
    exact yields_struct hag ih hl hbelow hn hclass hnamed hread
  | variants hs' hdata hn hvariants =>
    obtain rfl := hs.symm.trans hs'
    rw [withConstraints_of_unruled hrules]
    exact yields_data hag ih hl hdata hbelow hn hvariants hnamed hread
  | texts hs' hdata =>
    obtain rfl := hs.symm.trans hs'
    rw [withConstraints_of_unruled hrules]
    exact yields_texts hl hdata hnamed hread
  | enumRef hs' hdata hn he =>
    obtain rfl := hs.symm.trans hs'
    rw [withConstraints_of_unruled hrules]
    exact yields_units hag hl hdata hn he hnamed hread

/-! ## Steps of the induction -/

theorem unruled_below {id : ShapeId} (h : r.graph.Below Shape.Unadorned id) :
    r.graph.Below Shape.Unruled id := fun i hi => (h i hi).unruled

theorem yieldsRead_step (hag : Agrees r c s) (ih : YieldsBelow r c s v) : YieldsRead r c s v := by
  intro id t path n hroot ht hnamed hread
  refine yields_of_land (passes_hasType s) ht (ht.unruled hag.rules (unruled_below hroot)) hread
    (fun hl => ?_) ?_
  · cases v with
    | media m =>
      rw [read] at hread
      cases hread
    | _ =>
      rw [read] at hread
      · rw [hl] at hread
        cases hread
      · rintro _ ⟨⟩
  intro sid x u hl hlands hu
  have hbelow := hroot.land hlands
  have hshape := hlands.shape
  cases hu with
  | option hs => exact absurd hs hlands.ne_option
  | pointer hs => exact absurd hs hlands.ne_pointer
  | declared hdecl hfound =>
    exact yields_declared hag ih hl hbelow (hag.sound.complete hfound)
      ((HasType.declared hdecl hfound).unruled hag.rules (unruled_below hbelow)) hnamed hread
  | scalar hs hscalar =>
    obtain rfl := hshape.symm.trans hs
    exact (yields_scalar hscalar (readScalar_of_read hl hread)).imp
      fun w hw h => read_scalar (by rw [hw]; exact hl) h
  | list hs hinner =>
    obtain rfl := hshape.symm.trans hs
    cases hnamed.at hl with
    | list hparts =>
    refine yields_list (fun w hw => read_list_ok (by rw [hw]; exact hl)) ?_ hread
    intro items hitems y hy here m hm
    exact (ih y (Value.sizeOf_item hitems hy)).1 (hbelow.item hs) hinner (hparts items hitems y hy)
      hm
  | map hs _ hvalue =>
    obtain rfl := hshape.symm.trans hs
    cases hnamed.at hl with
    | map _ nd hparts =>
    refine yields_map (K := fun k m => m = .text k)
      (fun w hw => read_map_ok (by rw [hw]; exact hl)) nd ?_ hread
    intro es hes p hp here m hm
    exact (ih p.2 (Value.sizeOf_entry hes hp)).1 (hbelow.value hs) hvalue (hparts es hes p hp) hm

/-- An entry of a map that is written as pairs is read alike. -/
theorem taken_pair (hag : Agrees r c s) (ih : YieldsBelow r c s v) {oid : ShapeId} {owner : String}
    {variant : Option Variant} {f : Field} {kind : Keyed} {key value : ShapeId}
    (hsrc : ClassSource.entry oid owner variant f ∈ classSources r.graph s.names)
    (hmap : r.graph.mapBelow? f.shape = some (kind, key, value))
    (hclass : HasClass s (entryClassName (ownerContext owner variant f)).1)
    (hkey : r.graph.Below Shape.Unadorned key) (hvalue : r.graph.Below Shape.Unadorned value)
    {w : Value} (hw : sizeOf w < sizeOf v)
    (hk : ∀ es, w.entries? = some es → ∀ y, Entries.find? es "key" = some y →
      WellNamed r.graph r.names.tagField none key y)
    (hx : ∀ es, w.entries? = some es → ∀ y, Entries.find? es "value" = some y →
      WellNamed r.graph r.names.tagField none value y)
    {here : Path} {m : Native × Native} (hread : r.ReadsPair key value here w m) :
    ∃ y, c.Takes w y
        (.classRef (entryClassName (ownerContext owner variant f)).1 .complete false {}) ∧
      r.ReadsPair key value here y m := by
  obtain ⟨target, hschema⟩ := hag.schema
  obtain ⟨cd, hfound, hdef⟩ := found_definition target hag.sound hag.classes hsrc hclass
  have hfields := hdef.fields
  obtain ⟨es, k, x, hes, hfk, hfx, hnk, hnx⟩ := hread
  have hsize {name : String} {y : Value} (hy : Entries.find? es name = some y) :
      sizeOf y < sizeOf v :=
    Nat.lt_trans (Value.sizeOf_entry hes (Entries.mem_of_find?_eq_some hy)) hw
  generalize hds : cd.fields = ds at hfields
  cases hfields with
  | entry hmap' htk htx =>
  obtain ⟨rfl, rfl, rfl⟩ : _ ∧ _ ∧ _ := by simpa using hmap.symm.trans hmap'
  obtain ⟨k', htakesk, hk'⟩ := (ih k (hsize hfk)).1 hkey htk (hk es hes k hfk) hnk
  obtain ⟨x', htakesx, hx'⟩ := (ih x (hsize hfx)).1 hvalue htx (hx es hes x hfx) hnx
  refine ⟨.classOf _ [("key", k'), ("value", x')], Coercer.takes_class rfl
    (by rw [hschema]; exact hfound) hdef.constraints hes (by decide : ["key", "value"].Nodup) ?_,
    _, k', x', rfl, rfl, rfl, hk', hx'⟩
  rw [hds]
  refine .cons ⟨rfl, .found ?_ htakesk⟩ (.cons ⟨rfl, .found ?_ htakesx⟩ .nil)
  · unfold Name.lookup?
    rw [hfk]
    rfl
  · unfold Name.lookup?
    rw [hfx]
    rfl

theorem yieldsKeyed_step (hag : Agrees r c s) (ih : YieldsBelow r c s v)
    (hself : YieldsRead r c s v) : YieldsKeyed r c s v := by
  intro oid ctx repr f owner variant id t path n hroot hentry ht hnamed hread
  refine yields_of_land (passes_keyType s repr f _) ht (ht.unruled hag.rules (unruled_below hroot))
    hread (fun hl => ?_) ?_
  · rw [readKeyed, hl] at hread
    cases hread
  intro sid x u hl hlands hu
  have hbelow := hroot.land hlands
  have hshape := hlands.shape
  cases hu with
  | option hs => exact absurd hs hlands.ne_option
  | pointer hs => exact absurd hs hlands.ne_pointer
  | list hs hinner =>
    obtain rfl := hshape.symm.trans hs
    cases hnamed.at hl with
    | list hparts =>
    refine yields_list (fun w hw => readKeyed_list_ok (by rw [hw]; exact hl)) ?_ hread
    intro items hitems y hy here m hm
    exact (ih y (Value.sizeOf_item hitems hy)).2 oid ctx (hbelow.item hs) hentry hinner
      (hparts items hitems y hy) hm
  | text hs _ hrepr hvalue =>
    subst hrepr
    obtain rfl := hshape.symm.trans hs
    cases hnamed.at hl with
    | map _ nd hparts =>
    refine yields_map (K := fun k m => r.readKey _ k (path.key k) = .ok m)
      (fun w hw => readKeyed_text_ok (by rw [hw]; exact hl)) nd ?_ hread
    intro es hes p hp here m hm
    exact (ih p.2 (Value.sizeOf_entry hes hp)).1 (hbelow.value hs) hvalue (hparts es hes p hp) hm
  | pairs hs hmap hrepr hkey hvalue hclass =>
    subst hrepr
    obtain rfl := hshape.symm.trans hs
    obtain ⟨items, ns, hitems, hns, rfl⟩ := (readKeyed_pairs_ok hl).1 hread
    cases hnamed.at hl with
    | map hne => exact absurd rfl hne
    | pairs hk hx =>
    obtain ⟨ws, htakes, hws⟩ := exists_zipIdx_between (A := fun y w => c.Takes y w _)
      (P := fun p n => r.ReadsPair _ _ (path.index p.2) p.1 n) hns fun y hy i m hm =>
        taken_pair hag ih (hentry rfl (by rw [hmap]; rfl)) hmap hclass (hbelow.key hs)
        (hbelow.value hs) (Value.sizeOf_item hitems hy) (hk items hitems y hy)
          (hx items hitems y hy) hm
    refine ⟨.list ws, Coercer.takes_list rfl hitems htakes, ?_⟩
    rw [Value.isNull_of_items? hitems] at hl
    exact (readKeyed_pairs_ok hl).2 ⟨ws, ns, rfl, hws, rfl⟩
  | other hs hplain =>
    have hx : x.isDeclared = true ∨ ∃ y, x = .scalar y := by rwa [hshape] at hs
    rw [readKeyed_other hl hx] at hread
    refine (hself hbelow hplain (.landing fun sid' x' hl' => ?_) hread).imp
      fun w hw h => ?_
    · cases hl'.symm.trans (hlands.land v.isNull)
      exact (hnamed.at hl).plain hx
    · rwa [readKeyed_other (by rw [hw]; exact hl) hx]

/-- What is read below a field may be read as a plain shape again, of the same value, so the step
for plain shapes comes first. -/
theorem yields (hag : Agrees r c s) (v : Value) : YieldsRead r c s v ∧ YieldsKeyed r c s v := by
  induction hn : sizeOf v using Nat.strongRecOn generalizing v with
  | ind n ih =>
  have smaller : YieldsBelow r c s v := fun x hx => ih _ (hn ▸ hx) x rfl
  have hv : YieldsRead r c s v := yieldsRead_step hag smaller
  exact ⟨hv, yieldsKeyed_step hag smaller hv⟩

end

end Converter

end ShapeSchema
