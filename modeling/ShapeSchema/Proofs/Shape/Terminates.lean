import Mathlib.Data.Finset.Card
import Mathlib.Data.Finset.Range
import ShapeSchema.Proofs.Shape.Typed

/-!
# Building a schema ends

If every cycle of a graph passes through a struct or an enum, the shapes in between can be ranked:
a shape without a name lies above the shapes that it refers to (`Graph.rank_lt`). A walk goes down in
rank until it comes to a struct or an enum, and each of those is walked once, so that the depth the
builder starts with is enough (`Builder.settles_typeWithin`). A builder therefore never gives up for
want of depth: it gives a schema or names a problem of the graph.
-/

namespace ShapeSchema

open Relation

/-! ## Ranks -/

section
variable {R : Nat → Nat → Prop} {n a b : Nat}

open Classical in
/-- Numbers that a relation leads to, below a bound. -/
noncomputable def ahead (R : Nat → Nat → Prop) (n a : Nat) : Finset Nat :=
  (Finset.range n).filter (TransGen R a)

theorem mem_ahead {i : Nat} : i ∈ ahead R n a ↔ i < n ∧ TransGen R a i := by
  classical
  unfold ahead
  rw [Finset.mem_filter, Finset.mem_range]

theorem card_ahead_lt_bound (ha : a < n) (hacyclic : ¬ TransGen R a a) :
    (ahead R n a).card < n := by
  have hsub : ahead R n a ⊂ Finset.range n := by
    rw [Finset.ssubset_iff_of_subset fun i hi => Finset.mem_range.2 (mem_ahead.1 hi).1]
    exact ⟨a, Finset.mem_range.2 ha, fun hmem => hacyclic (mem_ahead.1 hmem).2⟩
  have hcard := Finset.card_lt_card hsub
  rwa [Finset.card_range] at hcard

/-- Along a step less lies ahead. -/
theorem card_ahead_lt (hab : R a b) (hb : b < n) (hacyclic : ¬ TransGen R b b) :
    (ahead R n b).card < (ahead R n a).card := by
  refine Finset.card_lt_card ((Finset.ssubset_iff_of_subset fun i hi => ?_).2
    ⟨b, mem_ahead.2 ⟨hb, .single hab⟩, fun hmem => hacyclic (mem_ahead.1 hmem).2⟩)
  obtain ⟨hlt, hr⟩ := mem_ahead.1 hi
  exact mem_ahead.2 ⟨hlt, .head hab hr⟩

end

namespace Graph

/-- A shape without a name refers to another. -/
def Through (g : Graph) (a b : ShapeId) : Prop :=
  (g.shape a).isDeclared = false ∧ b ∈ (g.shape a).children

/-- Every cycle among the shapes that a shape reaches passes through a struct or an enum. -/
def Guarded (g : Graph) (root : ShapeId) : Prop :=
  ∀ i, g.Reaches root i → ¬ TransGen g.Through i i

/-- The number of shapes that a shape reaches without passing through a struct or an enum. -/
noncomputable def rank (g : Graph) (id : ShapeId) : Nat :=
  if id < g.size then (ahead g.Through g.size id).card + 1 else 0

variable {g : Graph} {root : ShapeId}

theorem through_option {id inner : ShapeId} (hs : g.shape id = .option inner) :
    g.Through id inner := by
  simp [Through, hs, Shape.isDeclared, Shape.children]

theorem through_item {id inner : ShapeId} {kind : Collection} (hs : g.shape id = .list kind inner) :
    g.Through id inner := by
  simp [Through, hs, Shape.isDeclared, Shape.children]

theorem through_pointer {id inner : ShapeId} {kind : PointerKind}
    (hs : g.shape id = .pointer kind inner) : g.Through id inner := by
  simp [Through, hs, Shape.isDeclared, Shape.children]

theorem through_key {id key value : ShapeId} {kind : Keyed} (hs : g.shape id = .map kind key value) :
    g.Through id key := by
  simp [Through, hs, Shape.isDeclared, Shape.children]

theorem through_value {id key value : ShapeId} {kind : Keyed}
    (hs : g.shape id = .map kind key value) : g.Through id value := by
  simp [Through, hs, Shape.isDeclared, Shape.children]

theorem shape_of_le {id : ShapeId} (h : g.size ≤ id) : g.shape id = .foreign .opaqueForm "" := by
  unfold shape
  rw [Array.getD_eq_getD_getElem?, Array.getElem?_eq_none h, Option.getD_none]

theorem lt_size_of_child {a b : ShapeId} (h : b ∈ (g.shape a).children) : a < g.size := by
  by_contra hle
  rw [shape_of_le (Nat.le_of_not_lt hle)] at h
  cases h

theorem lt_size_of_isDeclared {id : ShapeId} (h : (g.shape id).isDeclared = true) :
    id < g.size := by
  by_contra hle
  rw [shape_of_le (Nat.le_of_not_lt hle)] at h
  cases h

theorem rank_le (hg : g.Guarded root) {id : ShapeId} (hid : g.Reaches root id) :
    g.rank id ≤ g.size := by
  unfold rank
  by_cases hlt : id < g.size
  · rw [if_pos hlt]
    exact card_ahead_lt_bound hlt (hg id hid)
  · rw [if_neg hlt]
    exact Nat.zero_le _

/-- A shape without a name lies above what it refers to. -/
theorem rank_lt (hg : g.Guarded root) {a b : ShapeId} (ha : g.Reaches root a)
    (hab : g.Through a b) : g.rank b < g.rank a := by
  unfold rank
  rw [if_pos (lt_size_of_child hab.2)]
  by_cases hb : b < g.size
  · rw [if_pos hb]
    have := card_ahead_lt hab hb (hg b (ha.tail hab.2))
    omega
  · rw [if_neg hb]
    omega

/-- A graph is guarded if numbers go down from each shape without a name to what it refers to. -/
theorem guarded_of_descends (height : ShapeId → Nat)
    (h : ∀ a < g.size, (g.shape a).isDeclared = false → ∀ b ∈ (g.shape a).children,
      height b < height a) : g.Guarded root := by
  have descends : ∀ a b, TransGen g.Through a b → height b < height a := by
    intro a b hab
    induction hab with
    | single hb => exact h _ (lt_size_of_child hb.2) hb.1 _ hb.2
    | tail _ hc ih => exact Nat.lt_trans (h _ (lt_size_of_child hc.2) hc.1 _ hc.2) ih
  exact fun i _ hi => Nat.lt_irrefl _ (descends i i hi)

/-- How deep pointers are followed does not matter beyond the rank. -/
theorem behindPointers_eq (hg : g.Guarded root) {m n : Nat} {id : ShapeId}
    (hid : g.Reaches root id) (hm : g.rank id < m) (hn : g.rank id < n) :
    g.behindPointers m id = g.behindPointers n id := by
  induction m generalizing n id with
  | zero => omega
  | succ m ih =>
    cases n with
    | zero => omega
    | succ n =>
      unfold behindPointers
      cases hs : g.shape id with
      | pointer kind inner =>
        have hthrough := through_pointer hs
        have hlt := rank_lt hg hid hthrough
        exact ih (hid.tail hthrough.2) (by omega) (by omega)
      | _ => rfl

/-- Looking behind pointers follows them to their end. -/
theorem unwrap_pointer (hg : g.Guarded root) {id inner : ShapeId} {kind : PointerKind}
    (hid : g.Reaches root id) (hs : g.shape id = .pointer kind inner) :
    g.unwrap id = g.unwrap inner := by
  have hthrough := through_pointer hs
  have hlt := rank_lt hg hid hthrough
  have hle := rank_le hg hid
  have hinner : g.Reaches root inner := hid.tail hthrough.2
  show g.behindPointers (g.size + 1) id = g.behindPointers (g.size + 1) inner
  rw [behindPointers, hs]
  exact behindPointers_eq hg hinner (by omega) (by omega)

end Graph

namespace Builder

variable {α β : Type}

/-! ## Runs that answer or name a problem -/

/-- A run answers, or it ends with a problem of the graph. `V` holds of what has been visited before
the run, `W` of what has been visited when it answers. -/
def Settles (V : List (ShapeId × Ty Authored) → Prop) (x : Build α)
    (W : List (ShapeId × Ty Authored) → Prop) : Prop :=
  ∀ s, V s.visited → (∃ a s', Ran x s a s' ∧ W s'.visited) ∨
    ∃ e s', x.run.run s = (.error (.build e), s')

section Calculus

variable {U V W : List (ShapeId × Ty Authored) → Prop}

theorem settles_pure (a : α) : Settles V (pure a) V := fun s hs => .inl ⟨a, s, rfl, hs⟩

theorem Settles.bind {x : Build α} {f : α → Build β} (hx : Settles U x V)
    (hf : ∀ a, Settles V (f a) W) : Settles U (x >>= f) W := by
  intro s hs
  rcases hx s hs with ⟨a, t, hran, ht⟩ | ⟨e, t, he⟩
  · rcases hf a t ht with ⟨b, s', hran', hs'⟩ | ⟨e, s', he⟩
    · exact .inl ⟨b, s', ran_bind.2 ⟨a, t, hran, hran'⟩, hs'⟩
    · refine .inr ⟨e, s', ?_⟩
      rw [ExceptT.run_bind, StateT.run_bind, show x.run.run s = (.ok a, t) from hran]
      exact he
  · refine .inr ⟨e, t, ?_⟩
    rw [ExceptT.run_bind, StateT.run_bind, he]
    rfl

theorem Settles.before {x : Build α} (hx : Settles V x W) (hV : ∀ vs, U vs → V vs) :
    Settles U x W := fun s hs => hx s (hV _ hs)

theorem Settles.after {x : Build α} (hx : Settles U x V) (hW : ∀ vs, V vs → W vs) :
    Settles U x W := fun s hs =>
  (hx s hs).imp_left fun ⟨a, s', hran, hs'⟩ => ⟨a, s', hran, hW _ hs'⟩

theorem settles_get {f : BuildState → Build β}
    (hf : ∀ s, V s.visited → Settles (fun vs => vs = s.visited) (f s) W) :
    Settles V (get >>= f) W := by
  intro s hs
  rcases hf s hs s rfl with ⟨b, s', hran, hs'⟩ | ⟨e, s', he⟩
  · exact .inl ⟨b, s', ran_bind.2 ⟨s, s, rfl, hran⟩, hs'⟩
  · exact .inr ⟨e, s', he⟩

theorem settles_set {t : BuildState} (ht : W t.visited) : Settles V (set t) W :=
  fun _ _ => .inl ⟨⟨⟩, t, rfl, ht⟩

theorem settles_modify {f : BuildState → BuildState}
    (hf : ∀ s, V s.visited → W (f s).visited) : Settles V (modify f) W :=
  fun s hs => .inl ⟨⟨⟩, f s, rfl, hf s hs⟩

theorem settles_fail (shape : Shape) (problem : BuildProblem) :
    Settles V (fail shape problem : Build α) W := fun _ _ => .inr ⟨_, _, rfl⟩

theorem settles_mapM {f : α → Build β} {xs : List α} (h : ∀ x ∈ xs, Settles V (f x) V) :
    Settles V (xs.mapM f) V := by
  induction xs with
  | nil => exact settles_pure []
  | cons x xs ih =>
    rw [List.mapM_cons]
    refine (h x List.mem_cons_self).bind fun y => ?_
    refine (ih fun z hz => h z (List.mem_cons_of_mem _ hz)).bind fun ys => ?_
    exact settles_pure (y :: ys)

theorem settles_forM {f : α → Build PUnit} {xs : List α} (h : ∀ x ∈ xs, Settles V (f x) V) :
    Settles V (xs.forM f) V := by
  induction xs with
  | nil => exact settles_pure ()
  | cons x xs ih =>
    exact (h x List.mem_cons_self).bind fun _ => ih fun z hz => h z (List.mem_cons_of_mem _ hz)

/-! ## Steps that visit nothing -/

theorem settles_log (level : LogLevel) (message : String) (data : Option Native) :
    Settles V (log level message data) V := settles_modify fun _ hs => hs

theorem settles_pushTrail (name : String) : Settles V (pushTrail name) V :=
  settles_modify fun _ hs => hs

theorem settles_popTrail : Settles V popTrail V := settles_modify fun _ hs => hs

theorem settles_internalName (id : ShapeId) (base : String) :
    Settles V (internalName id base) V := by
  unfold internalName
  refine settles_get fun s hs => Settles.after (V := fun vs => vs = s.visited) ?_ ?_
  · split
    · exact settles_pure _
    · dsimp only
      split
      · refine Settles.bind (V := fun vs => vs = s.visited) (settles_set ?_) fun _ => ?_
        · rfl
        · exact (settles_log _ _ _).bind fun _ => settles_pure _
      · refine Settles.bind (V := fun vs => vs = s.visited) (settles_set ?_) fun _ => ?_
        · rfl
        · exact settles_pure _
  · rintro vs rfl
    exact hs

theorem settles_validConstraints (shape : Shape) (checks asserts : List Rule) :
    Settles V (validConstraints shape checks asserts) V := by
  unfold validConstraints
  dsimp only
  split
  · exact settles_fail _ _
  · exact settles_pure _

theorem settles_registerClass (c : ClassDef) : Settles V (registerClass c) V := by
  unfold registerClass
  refine settles_get fun s hs => Settles.after (V := fun vs => vs = s.visited) ?_ ?_
  · have hadd : Settles (fun vs => vs = s.visited)
        (modify fun s => { s with registry := s.registry.addClass c })
        (fun vs => vs = s.visited) := settles_modify fun _ h => h
    dsimp only
    split
    · exact hadd
    · exact (settles_log _ _ _).bind fun _ => hadd
  · rintro vs rfl
    exact hs

theorem settles_registerEnum (e : EnumDef) : Settles V (registerEnum e) V := by
  unfold registerEnum
  refine Settles.bind (V := V) (settles_modify fun _ hs => hs) fun _ => ?_
  exact settles_log _ _ _

theorem settles_scalarType (x : Scalar) : Settles V (scalarType x) V := by
  cases x with
  | u64 | usize | i128 | u128 => exact settles_fail _ _
  | _ => exact settles_pure _

end Calculus

/-! ## Shapes without names -/

section Graph

variable {g : Graph} {root : ShapeId} {V : List (ShapeId × Ty Authored) → Prop}

/-- The walk for whole numbers goes down in rank. -/
theorem settles_intReprType (hg : g.Guarded root) (repr : IntRepr) {fuel : Nat} {id : ShapeId}
    (hid : g.Reaches root id) (hfuel : g.rank id < fuel) :
    Settles V (intReprType g repr fuel id) V := by
  induction fuel generalizing id with
  | zero => omega
  | succ fuel ih =>
    have below : ∀ inner, g.Through id inner → Settles V (intReprType g repr fuel inner) V := by
      intro inner hthrough
      have hlt := Graph.rank_lt hg hid hthrough
      exact ih (hid.tail hthrough.2) (by omega)
    unfold intReprType
    split
    · next inner hs =>
      exact (below inner (Graph.through_option hs)).bind fun _ => settles_pure _
    · next kind inner hs =>
      exact (below inner (Graph.through_item hs)).bind fun _ => settles_pure _
    · next kind inner hs => exact below inner (Graph.through_pointer hs)
    · split
      · exact settles_pure _
      · exact settles_fail _ _
    · exact settles_fail _ _

section
variable {self : ShapeId → Build (Ty Authored)}

theorem settles_entryClass {key value : ShapeId} (hkey : Settles V (self key) V)
    (hvalue : Settles V (self value) V) (ctx : FieldContext) :
    Settles V (entryClass self key value ctx) V := by
  unfold entryClass
  refine hkey.bind fun k => ?_
  refine hvalue.bind fun x => ?_
  exact (settles_registerClass _).bind fun _ => settles_pure _

/-- The walk for maps goes down in rank as well. -/
theorem settles_keyReprType (hg : g.Guarded root)
    (hself : ∀ id, g.Reaches root id → Settles V (self id) V) (repr : KeyRepr) (ctx : FieldContext)
    {fuel : Nat} {id : ShapeId} (hid : g.Reaches root id) (hfuel : g.rank id < fuel) :
    Settles V (keyReprType g self repr ctx fuel id) V := by
  induction fuel generalizing id with
  | zero => omega
  | succ fuel ih =>
    have below : ∀ inner, g.Through id inner →
        Settles V (keyReprType g self repr ctx fuel inner) V := by
      intro inner hthrough
      have hlt := Graph.rank_lt hg hid hthrough
      exact ih (hid.tail hthrough.2) (by omega)
    unfold keyReprType
    split
    · next inner hs =>
      exact (below inner (Graph.through_option hs)).bind fun _ => settles_pure _
    · next kind inner hs =>
      exact (below inner (Graph.through_item hs)).bind fun _ => settles_pure _
    · next kind inner hs => exact below inner (Graph.through_pointer hs)
    · next kind key value hs =>
      have hkey := hself key (hid.tail (Graph.through_key hs).2)
      have hvalue := hself value (hid.tail (Graph.through_value hs).2)
      split
      · exact hvalue.bind fun _ => settles_pure _
      · exact (settles_entryClass hkey hvalue ctx).bind fun _ => settles_pure _
    · exact hself id hid

/-! ## Fields -/

theorem settles_fieldType (hg : g.Guarded root)
    (hself : ∀ id, g.Reaches root id → Settles V (self id) V) {f : Field} (hcodec : f.codec = none)
    (hf : g.Reaches root f.shape) (ctx : FieldContext) : Settles V (fieldType g self f ctx) V := by
  have hrank := Graph.rank_le hg hf
  unfold fieldType
  rw [hcodec]
  dsimp only
  split
  · exact settles_intReprType hg _ hf (by omega)
  · exact settles_keyReprType hg hself _ ctx hf (by omega)
  · exact hself f.shape hf

theorem settles_fieldDefs (hg : g.Guarded root)
    (hself : ∀ id, g.Reaches root id → Settles V (self id) V) (owner : Shape) (ownerName : String)
    (variant : Option Variant) {fields : List Field}
    (hfields : ∀ f ∈ fields, f.codec = none ∧ g.Reaches root f.shape) :
    Settles V (fieldDefs g self owner ownerName variant fields) V := by
  refine settles_mapM fun f hf => ?_
  obtain ⟨hcodec, hreach⟩ := hfields f (List.mem_filter.1 hf).1
  unfold fieldDef
  refine (settles_pushTrail _).bind fun _ => ?_
  refine (settles_fieldType hg hself hcodec hreach _).bind fun t => ?_
  refine (settles_validConstraints _ _ _).bind fun cs => ?_
  exact (settles_popTrail).bind fun _ => settles_pure _

/-- The class of a variant. -/
theorem settles_variantClass (hg : g.Guarded root)
    (hself : ∀ id, g.Reaches root id → Settles V (self id) V) (owner : Shape)
    (internal rendered tag : String) {v : Variant}
    (hfields : ∀ f ∈ v.fields, f.codec = none ∧ g.Reaches root f.shape) :
    Settles V (variantClass g self owner internal rendered tag v) V := by
  unfold variantClass
  dsimp only
  split
  · exact (settles_fail (W := V) _ _).bind fun _ => (settles_pushTrail _).bind fun _ =>
      (settles_fieldDefs hg hself _ _ _ hfields).bind fun _ => settles_popTrail.bind fun _ =>
        settles_registerClass _
  · refine (settles_pushTrail _).bind fun _ => ?_
    refine (settles_fieldDefs hg hself _ _ _ hfields).bind fun _ => ?_
    exact settles_popTrail.bind fun _ => settles_registerClass _

end

/-! ## Structs and enums -/

/-- The number of shapes that have not been met. -/
def unmet (g : Graph) (vs : List (ShapeId × Ty Authored)) : Nat :=
  ((Finset.range g.size).filter fun i => Entries.find? vs i = none).card

/-- At most `u` shapes have not been met. -/
def AtMost (g : Graph) (u : Nat) (vs : List (ShapeId × Ty Authored)) : Prop := unmet g vs ≤ u

/-- At most `u` shapes have not been met, and a given one is among them. -/
def AtMostWith (g : Graph) (u : Nat) (id : ShapeId) (vs : List (ShapeId × Ty Authored)) : Prop :=
  AtMost g u vs ∧ Entries.find? vs id = none

theorem unmet_le_size (vs : List (ShapeId × Ty Authored)) : unmet g vs ≤ g.size := by
  have hle := Finset.card_filter_le (Finset.range g.size) fun i => Entries.find? vs i = none
  rwa [Finset.card_range] at hle

theorem unmet_lt {id : ShapeId} {vs : List (ShapeId × Ty Authored)} (hid : id < g.size)
    (hnew : Entries.find? vs id = none) (t : Ty Authored) :
    unmet g (vs ++ [(id, t)]) < unmet g vs := by
  refine Finset.card_lt_card ?_
  rw [Finset.ssubset_iff_of_subset]
  · refine ⟨id, Finset.mem_filter.2 ⟨Finset.mem_range.2 hid, hnew⟩, fun hmem => ?_⟩
    have hfound : Entries.find? (vs ++ [(id, t)]) id = some t := find?_append_self hnew
    rw [(Finset.mem_filter.1 hmem).2] at hfound
    cases hfound
  · intro i hi
    obtain ⟨hlt, hnone⟩ := Finset.mem_filter.1 hi
    refine Finset.mem_filter.2 ⟨hlt, Option.eq_none_iff_forall_ne_some.2 fun u hu => ?_⟩
    rw [find?_of_extends (List.prefix_append vs _) hu] at hnone
    cases hnone

/-- Meeting a shape leaves fewer. -/
theorem settles_visit {u : Nat} {id : ShapeId} (hid : id < g.size) (t : Ty Authored) :
    Settles (AtMostWith g (u + 1) id) (visit id t) (AtMost g u) := by
  refine settles_modify fun s ⟨hu, hnew⟩ => ?_
  have hlt := unmet_lt hid hnew t
  exact Nat.le_of_lt_succ (Nat.lt_of_lt_of_le hlt hu)

section
variable {self : ShapeId → Build (Ty Authored)} {u : Nat}
  (hself : ∀ id, g.Reaches root id → Settles (AtMost g u) (self id) (AtMost g u))
include hself

theorem settles_structType (hg : g.Guarded root) (hbelow : g.Below Shape.CodecFree root)
    {id : ShapeId} (hid : g.Reaches root id) (hlt : id < g.size) {d : Declared}
    {fields : List Field} (hs : g.shape id = .struct d fields) :
    Settles (AtMostWith g (u + 1) id) (structType g self id d fields) (AtMost g u) := by
  have hgroup : fields ∈ (g.shape id).fieldGroups := by
    rw [hs]
    exact List.mem_cons_self
  unfold structType
  refine (settles_internalName _ _).bind fun internal => ?_
  refine (settles_validConstraints _ _ _).bind fun cs => ?_
  refine (settles_visit hlt _).bind fun _ => ?_
  refine (settles_fieldDefs hg hself _ _ _ fun f hf => ?_).bind fun fs => ?_
  · exact ⟨hbelow id hid fields hgroup f hf, hid.tail (Shape.mem_children_of_field hgroup hf)⟩
  · exact (settles_registerClass _).bind fun _ => settles_pure _

theorem settles_enumType (hg : g.Guarded root) (hbelow : g.Below Shape.CodecFree root)
    (tag : String) {id : ShapeId} (hid : g.Reaches root id) (hlt : id < g.size) {d : Declared}
    {own : Option String} {asUnion : Bool} {vs : List Variant}
    (hs : g.shape id = .enum d own asUnion vs) :
    Settles (AtMostWith g (u + 1) id) (enumType g tag self id d own asUnion vs) (AtMost g u) := by
  unfold enumType
  dsimp only
  refine (settles_internalName _ _).bind fun internal => ?_
  refine (settles_validConstraints _ _ _).bind fun cs => ?_
  split
  · refine (settles_visit hlt _).bind fun _ => ?_
    refine Settles.bind (V := AtMost g u) (settles_forM fun v hv => ?_) fun _ => settles_pure _
    have hgroup : v.fields ∈ (g.shape id).fieldGroups := by
      rw [hs]
      exact List.mem_map_of_mem hv
    refine settles_variantClass hg hself _ _ _ _ fun f hf => ?_
    exact ⟨hbelow id hid v.fields hgroup f hf, hid.tail (Shape.mem_children_of_field hgroup hf)⟩
  · split
    · exact (settles_visit hlt _).bind fun _ => settles_pure _
    · refine (settles_visit hlt _).bind fun _ => ?_
      exact (settles_registerEnum _).bind fun _ => settles_pure _

end

/-! ## Whole graphs -/

/-- A struct or enum that is met for the first time leaves fewer shapes to be met. -/
theorem Settles.ofFirst {x : Build α} {u : Nat} {id : ShapeId} (hid : id < g.size)
    (hx : ∀ w, u = w + 1 → Settles (AtMostWith g (w + 1) id) x (AtMost g w)) :
    Settles (AtMostWith g u id) x (AtMost g u) := by
  cases u with
  | zero =>
    rintro s ⟨hu, hnew⟩
    have hlt := unmet_lt hid hnew (.top {})
    exact absurd hlt (by unfold AtMost at hu; omega)
  | succ w => exact (hx w rfl).after fun vs hw => Nat.le_succ_of_le hw

/-- One shape settles if the shapes that it refers to do: with as many shapes left to be met those
below it in rank, with fewer left all of them. -/
theorem settles_step (hg : g.Guarded root) (hbelow : g.Below Shape.CodecFree root) (tag : String)
    {self : ShapeId → Build (Ty Authored)} {u : Nat} {id : ShapeId} (hid : g.Reaches root id)
    (hnear : ∀ i, g.Through id i → Settles (AtMost g u) (self i) (AtMost g u))
    (hfar : ∀ w, u = w + 1 → ∀ i, g.Reaches root i →
      Settles (AtMost g w) (self i) (AtMost g w)) :
    Settles (AtMost g u) (step g tag self id) (AtMost g u) := by
  unfold step
  refine settles_get fun s hu => ?_
  have fresh : ∀ {x : Build (Ty Authored)}, Settles (AtMost g u) x (AtMost g u) →
      Settles (fun vs => vs = s.visited) x (AtMost g u) := fun hx => hx.before fun _ h => h ▸ hu
  split
  · exact (settles_pure _).after fun _ h => h ▸ hu
  next hnew =>
  have first : ∀ {x : Build (Ty Authored)}, Settles (AtMostWith g u id) x (AtMost g u) →
      Settles (fun vs => vs = s.visited) x (AtMost g u) :=
    fun hx => hx.before fun _ h => h ▸ ⟨hu, hnew⟩
  split
  · exact fresh (settles_scalarType _)
  · next inner hs =>
    exact fresh ((hnear inner (Graph.through_option hs)).bind fun _ => settles_pure _)
  · next kind inner hs =>
    exact fresh ((hnear inner (Graph.through_item hs)).bind fun _ => settles_pure _)
  · next kind key value hs =>
    refine fresh ((hnear value (Graph.through_value hs)).bind fun _ => ?_)
    split
    · exact settles_pure _
    · exact settles_pure _
    · exact settles_pure _
    · exact settles_fail _ _
  · next kind inner hs => exact fresh (hnear inner (Graph.through_pointer hs))
  · next d fields hs =>
    have hlt : id < g.size := Graph.lt_size_of_isDeclared (by rw [hs]; rfl)
    exact first (.ofFirst hlt fun w hw => settles_structType (hfar w hw) hg hbelow hid hlt hs)
  · next d own asUnion vs hs =>
    have hlt : id < g.size := Graph.lt_size_of_isDeclared (by rw [hs]; rfl)
    exact first (.ofFirst hlt fun w hw => settles_enumType (hfar w hw) hg hbelow tag hid hlt hs)
  · exact settles_fail _ _

/-- Each shape that is left to be met costs a whole chain of shapes without names. -/
theorem settles_typeWithin (hg : g.Guarded root) (hbelow : g.Below Shape.CodecFree root)
    (tag : String) {fuel u : Nat} {id : ShapeId} (hid : g.Reaches root id)
    (hfuel : u * (g.size + 1) + g.rank id < fuel) :
    Settles (AtMost g u) (typeWithin g tag fuel id) (AtMost g u) := by
  induction fuel generalizing u id with
  | zero => omega
  | succ fuel ih =>
    refine settles_step hg hbelow tag hid (fun i hi => ?_) fun w hw i hi => ?_
    · have hlt := Graph.rank_lt hg hid hi
      exact ih (hid.tail hi.2) (by omega)
    · have hle := Graph.rank_le hg hi
      subst hw
      rw [Nat.succ_mul] at hfuel
      exact ih hi (by omega)

/-- Building a schema ends with a schema or with a problem of the graph. -/
theorem buildSchema_ends (hg : g.Guarded root) (hbelow : g.Below Shape.CodecFree root)
    (tag : String) :
    (∃ b, (buildSchema g root tag).1 = .ok b) ∨
      ∃ e, (buildSchema g root tag).1 = .error (.build e) := by
  have hrank := Graph.rank_le hg .refl
  have hfuel : g.size * (g.size + 1) + g.rank root < depthBound g := by
    unfold depthBound
    rw [Nat.succ_mul]
    omega
  have hbuild : Settles (AtMost g g.size) (build g tag root) (AtMost g g.size) := by
    refine Settles.bind (V := AtMost g g.size) (settles_modify fun _ h => h) fun _ => ?_
    exact settles_typeWithin hg hbelow tag .refl hfuel
  unfold buildSchema
  rcases hbuild {} (unmet_le_size _) with ⟨t, s, hran, -⟩ | ⟨e, s, he⟩
  · rw [show (build g tag root).run.run {} = (.ok t, s) from hran]
    exact .inl ⟨_, rfl⟩
  · rw [he]
    exact .inr ⟨e, rfl⟩

end Graph

end Builder

end ShapeSchema
