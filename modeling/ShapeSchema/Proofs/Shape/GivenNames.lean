import ShapeSchema.Proofs.Shape.Typed

/-!
# How names are given

A builder gives names to the structs and enums of a graph in the order in which it meets them, over
any number of calls, those that fail included. `Given` is the rule by which names and the number
that was tried last come about: a shape gets its base name unless that is in use, and otherwise the
base name with a number, which a search finds that counts on from the last number.

Every step of the builder keeps to the rule and takes no name back (`Steady`), so that whatever
follows from the rule holds after any calls (`names_after`): names are distinct and stay as they
are, and a base name goes to the first shape that wants it, if no shape before has it.
-/

namespace ShapeSchema.Builder

/-! ## The rule -/

/-- Names given in order, with the last number that was tried. -/
inductive Given (g : Graph) : List (ShapeId × String) → Nat → Prop where
  | none : Given g [] 0
  | plain {ns : List (ShapeId × String)} {counter : Nat} {id : ShapeId} : Given g ns counter →
      (g.shape id).isDeclared = true → id ∉ Entries.keys ns →
      (g.shape id).declaration.baseName ∉ ns.map Prod.snd →
      Given g (ns ++ [(id, (g.shape id).declaration.baseName)]) counter
  | counted {ns : List (ShapeId × String)} {counter n : Nat} {id : ShapeId} : Given g ns counter →
      (g.shape id).isDeclared = true → id ∉ Entries.keys ns →
      (g.shape id).declaration.baseName ∈ ns.map Prod.snd →
      Searches (ns.map Prod.snd) (g.shape id).declaration.baseName counter n →
      Given g (ns ++ [(id, numbered (g.shape id).declaration.baseName n)]) n

section

variable {g : Graph} {ns : List (ShapeId × String)} {counter : Nat}

/-- No shape has two names, and no two shapes have one. -/
theorem Given.distinct (h : Given g ns counter) :
    (Entries.keys ns).Nodup ∧ (ns.map Prod.snd).Nodup := by
  induction h with
  | none => exact ⟨List.nodup_nil, List.nodup_nil⟩
  | plain _ _ hid hfree ih => exact distinct_append ih hid hfree
  | counted _ _ hid _ hsearch ih => exact distinct_append ih hid hsearch.not_mem

theorem cases_of_snoc_eq {α : Type} {xs pre post : List α} {x y : α}
    (h : xs ++ [x] = pre ++ y :: post) :
    (xs = pre ∧ x = y) ∨ ∃ post', xs = pre ++ y :: post' := by
  rcases List.eq_nil_or_concat post with rfl | ⟨post', z, rfl⟩
  · obtain ⟨hxs, hx⟩ := List.append_inj' h rfl
    exact .inl ⟨hxs, List.singleton_injective hx⟩
  · rw [List.concat_eq_append, ← List.cons_append, ← List.append_assoc] at h
    exact .inr ⟨post', (List.append_inj' h rfl).1⟩

/-- A shape has its base name if no shape before has it, and otherwise that with a positive number.
-/
theorem Given.place (h : Given g ns counter) {pre post : List (ShapeId × String)} {id : ShapeId}
    {name : String} (hns : ns = pre ++ (id, name) :: post) :
    (g.shape id).isDeclared = true ∧
    (((g.shape id).declaration.baseName ∉ pre.map Prod.snd ∧
        name = (g.shape id).declaration.baseName) ∨
      ((g.shape id).declaration.baseName ∈ pre.map Prod.snd ∧
        ∃ n, 0 < n ∧ name = numbered (g.shape id).declaration.baseName n)) := by
  induction h generalizing post with
  | none => simp at hns
  | plain _ hdeclared _ hfree ih =>
    rcases cases_of_snoc_eq hns with ⟨rfl, hlast⟩ | ⟨post', hns⟩
    · cases hlast
      exact ⟨hdeclared, .inl ⟨hfree, rfl⟩⟩
    · exact ih hns
  | counted _ hdeclared _ hused hsearch ih =>
    rcases cases_of_snoc_eq hns with ⟨rfl, hlast⟩ | ⟨post', hns⟩
    · cases hlast
      exact ⟨hdeclared, .inr ⟨hused, _, Nat.zero_lt_of_lt hsearch.lt, rfl⟩⟩
    · exact ih hns

end

/-! ## Steps that keep to the rule -/

/-- The names that a builder has given keep to the rule, and what it has met has a name. -/
structure Orderly (g : Graph) (s : BuildState) : Prop where
  given : Given g s.names s.counter
  visited : ∀ p ∈ s.visited, p.1 ∈ Entries.keys s.names

/-- Where a run ends that began at `s`: in order, with no name taken back, and with the property `W`
if it succeeded. -/
structure EndsIn {α : Type} (g : Graph) (s : BuildState) (W : BuildState → Prop)
    (r : Except Fault α × BuildState) : Prop where
  orderly : Orderly g r.2
  names : s.names <+: r.2.names
  reached : ∀ a, r.1 = .ok a → W r.2

/-- From a state in order with the property `V` a step leaves a state in order, also if it fails,
and one with the property `W` if it succeeds. -/
def Upholds {α : Type} (g : Graph) (V : BuildState → Prop) (x : Build α) (W : BuildState → Prop) :
    Prop := ∀ s, Orderly g s → V s → EndsIn g s W (x.run.run s)

/-- A step leaves a state in order. -/
def Steady {α : Type} (g : Graph) (x : Build α) : Prop := Upholds g (fun _ => True) x fun _ => True

/-- The shape has a name. -/
def HasName (id : ShapeId) (s : BuildState) : Prop := id ∈ Entries.keys s.names

section Calculus

variable {α β : Type} {g : Graph} {V W U : BuildState → Prop}

theorem EndsIn.refl {s : BuildState} (hs : Orderly g s) {r : Except Fault α}
    (hW : ∀ a, r = .ok a → W s) : EndsIn g s W (r, s) := ⟨hs, List.prefix_rfl, hW⟩

theorem Upholds.bind {x : Build α} {f : α → Build β} (hx : Upholds g V x W)
    (hf : ∀ a, Upholds g W (f a) U) : Upholds g V (x >>= f) U := by
  intro s hs hV
  have first := hx s hs hV
  rw [ExceptT.run_bind, StateT.run_bind]
  generalize x.run.run s = r at first
  obtain ⟨r, t⟩ := r
  cases r with
  | ok a =>
    have second := hf a t first.orderly (first.reached a rfl)
    exact ⟨second.orderly, first.names.trans second.names, second.reached⟩
  | error e => exact ⟨first.orderly, first.names, fun _ h => nomatch h⟩

theorem upholds_pure (a : α) : Upholds g V (pure a : Build α) V := fun _ hs hV =>
  .refl hs fun _ _ => hV

theorem upholds_throw (e : Fault) : Upholds g V (throw e : Build α) W := fun _ hs _ =>
  .refl hs fun _ h => nomatch h

theorem upholds_get {f : BuildState → Build α} (h : ∀ s, V s → Upholds g (fun t => t = s) (f s) W) :
    Upholds g V (get >>= f) W := fun s hs hV => h s hV s hs rfl

theorem Upholds.imp {x : Build α} {V' W' : BuildState → Prop} (h : Upholds g V x W)
    (hV : ∀ s, V' s → V s) (hW : ∀ s, W s → W' s) : Upholds g V' x W' := fun s hs hs' =>
  have ends := h s hs (hV s hs')
  ⟨ends.orderly, ends.names, fun a ha => hW _ (ends.reached a ha)⟩

/-- A shape does not lose its name. -/
theorem Steady.hasName {x : Build α} (h : Steady g x) (id : ShapeId) :
    Upholds g (HasName id) x (HasName id) := fun s hs hid =>
  have ends := h s hs trivial
  ⟨ends.orderly, ends.names, fun _ _ => (ends.names.map Prod.fst).subset hid⟩

theorem Steady.bind {x : Build α} {f : α → Build β} (hx : Steady g x)
    (hf : ∀ a, Steady g (f a)) : Steady g (x >>= f) := Upholds.bind hx hf

theorem Upholds.steady {x : Build α} (h : Upholds g (fun _ => True) x W) : Steady g x :=
  h.imp (fun _ h => h) fun _ _ => trivial

theorem steady_get {f : BuildState → Build α} (h : ∀ s, Steady g (f s)) : Steady g (get >>= f) :=
  upholds_get fun s _ => (h s).imp (fun _ _ => trivial) fun _ h => h

theorem steady_pure (a : α) : Steady g (pure a : Build α) := upholds_pure a

theorem steady_throw (e : Fault) : Steady g (throw e : Build α) := upholds_throw e

/-- Where names and what was met stay as they are, order does. -/
theorem endsIn_of_same {s t : BuildState} (hs : Orderly g s) (hnames : t.names = s.names)
    (hcounter : t.counter = s.counter) (hvisited : t.visited = s.visited) (a : α) :
    EndsIn g s (fun _ => True) ((.ok a, t) : Except Fault α × BuildState) where
  orderly := by
    refine ⟨?_, ?_⟩
    · show Given g t.names t.counter
      rw [hnames, hcounter]
      exact hs.given
    · show ∀ p ∈ t.visited, p.1 ∈ Entries.keys t.names
      rw [hnames, hvisited]
      exact hs.visited
  names := by
    show s.names <+: t.names
    simp only [hnames, List.prefix_rfl]
  reached _ _ := trivial

theorem steady_modify {f : BuildState → BuildState} (hnames : ∀ s, (f s).names = s.names)
    (hcounter : ∀ s, (f s).counter = s.counter) (hvisited : ∀ s, (f s).visited = s.visited) :
    Steady g (modify f) := fun s hs _ =>
  endsIn_of_same hs (hnames s) (hcounter s) (hvisited s) PUnit.unit

theorem upholds_set {s t : BuildState} (hnames : t.names = s.names)
    (hcounter : t.counter = s.counter) (hvisited : t.visited = s.visited) :
    Upholds g (fun u => u = s) (set t) fun _ => True := by
  rintro s hs rfl
  exact endsIn_of_same hs hnames hcounter hvisited PUnit.unit

theorem steady_log (level : LogLevel) (message : String) (data : Option Native) :
    Steady g (log level message data) := steady_modify (fun _ => rfl) (fun _ => rfl) fun _ => rfl

theorem steady_pushTrail (name : String) : Steady g (pushTrail name) :=
  steady_modify (fun _ => rfl) (fun _ => rfl) fun _ => rfl

theorem steady_popTrail : Steady g popTrail :=
  steady_modify (fun _ => rfl) (fun _ => rfl) fun _ => rfl

theorem steady_fail (shape : Shape) (problem : BuildProblem) :
    Steady g (fail shape problem : Build α) := steady_get fun _ => upholds_throw _

/-- Nothing follows a failure. -/
theorem steady_fail_bind (shape : Shape) (problem : BuildProblem) (f : α → Build β) :
    Steady g (fail shape problem >>= f) := by
  have fails : Upholds g (fun _ => True) (fail shape problem : Build α) fun _ => False :=
    upholds_get fun _ _ => upholds_throw _
  exact fails.bind fun _ _ _ h => h.elim

theorem steady_mapM {f : α → Build β} (h : ∀ x, Steady g (f x)) (xs : List α) :
    Steady g (xs.mapM f) := by
  induction xs with
  | nil => exact steady_pure []
  | cons x xs ih =>
    rw [List.mapM_cons]
    exact (h x).bind fun y => ih.bind fun ys => steady_pure (y :: ys)

theorem steady_forM {f : α → Build PUnit} (h : ∀ x, Steady g (f x)) (xs : List α) :
    Steady g (xs.forM f) := by
  induction xs with
  | nil => exact steady_pure ()
  | cons x xs ih => exact (h x).bind fun _ => ih

end Calculus

section Steps

variable {g : Graph}

/-- A declared shape is given a name, or has one. -/
theorem upholds_internalName {id : ShapeId} (hdeclared : (g.shape id).isDeclared = true) :
    Upholds g (fun _ => True) (internalName id (g.shape id).declaration.baseName) (HasName id) := by
  intro s hs _
  cases hfind : Entries.find? s.names id with
  | some name =>
    rw [ran_internalName_known hfind]
    exact .refl hs fun _ _ => List.mem_map_of_mem (Entries.mem_of_find?_eq_some hfind)
  | none =>
    have hid := Entries.find?_eq_none.1 hfind
    have met (name : String) : ∀ p ∈ s.visited, p.1 ∈ Entries.keys (s.names ++ [(id, name)]) :=
      fun p hp => ((List.prefix_append _ _).map Prod.fst).subset (hs.visited p hp)
    have last (name : String) : id ∈ Entries.keys (s.names ++ [(id, name)]) := by
      simp [Entries.keys]
    by_cases hused : (g.shape id).declaration.baseName ∈ s.names.map Prod.snd
    · obtain ⟨n, hsearch, hran⟩ := ran_internalName_counted hfind hused
      rw [hran]
      exact ⟨⟨.counted hs.given hdeclared hid hused hsearch, met _⟩, List.prefix_append _ _,
        fun _ _ => last _⟩
    · rw [ran_internalName_plain hfind hused]
      exact ⟨⟨.plain hs.given hdeclared hid hused, met _⟩, List.prefix_append _ _,
        fun _ _ => last _⟩

theorem upholds_visit {id : ShapeId} (t : Ty Authored) :
    Upholds g (HasName id) (visit id t) (HasName id) := by
  intro s hs hid
  refine ⟨⟨hs.given, fun p hp => ?_⟩, List.prefix_rfl, fun _ _ => hid⟩
  rcases List.mem_append.1 hp with hp | hp
  · exact hs.visited p hp
  · rw [List.mem_singleton.1 hp]
    exact hid

theorem steady_validConstraints (shape : Shape) (checks asserts : List Rule) :
    Steady g (validConstraints shape checks asserts) := by
  unfold validConstraints
  dsimp only
  split
  · exact steady_fail _ _
  · exact steady_pure _

theorem steady_registerClass (c : ClassDef) : Steady g (registerClass c) := by
  have add : Steady g (modify fun s => { s with registry := s.registry.addClass c }) :=
    steady_modify (fun _ => rfl) (fun _ => rfl) fun _ => rfl
  unfold registerClass
  refine steady_get fun s => ?_
  dsimp only
  split
  · exact add
  · exact (steady_log _ _ _).bind fun _ => add

theorem steady_registerEnum (e : EnumDef) : Steady g (registerEnum e) := by
  unfold registerEnum
  refine Steady.bind ?_ fun _ => steady_log _ _ _
  exact steady_modify (fun _ => rfl) (fun _ => rfl) fun _ => rfl

theorem steady_scalarType (x : Scalar) : Steady g (scalarType x) := by
  cases x with
  | u64 | usize | i128 | u128 => exact steady_fail _ _
  | _ => exact steady_pure _

theorem steady_intReprType (repr : IntRepr) (fuel : Nat) (id : ShapeId) :
    Steady g (intReprType g repr fuel id) := by
  induction fuel generalizing id with
  | zero => exact steady_throw _
  | succ fuel ih =>
    unfold intReprType
    split
    · exact (ih _).bind fun _ => steady_pure _
    · exact (ih _).bind fun _ => steady_pure _
    · exact ih _
    · split
      · exact steady_pure _
      · exact steady_fail _ _
    · exact steady_fail _ _

/-! ## Fields -/

section

variable {self : ShapeId → Build (Ty Authored)} (hself : ∀ id, Steady g (self id))
include hself

theorem steady_entryClass (key value : ShapeId) (ctx : FieldContext) :
    Steady g (entryClass self key value ctx) := by
  unfold entryClass
  refine (hself key).bind fun k => (hself value).bind fun v => ?_
  exact (steady_registerClass _).bind fun _ => steady_pure _

theorem steady_keyReprType (repr : KeyRepr) (ctx : FieldContext) (fuel : Nat) (id : ShapeId) :
    Steady g (keyReprType g self repr ctx fuel id) := by
  induction fuel generalizing id with
  | zero => exact steady_throw _
  | succ fuel ih =>
    unfold keyReprType
    split
    · exact (ih _).bind fun _ => steady_pure _
    · exact (ih _).bind fun _ => steady_pure _
    · exact ih _
    · split
      · exact (hself _).bind fun _ => steady_pure _
      · exact (steady_entryClass hself _ _ ctx).bind fun _ => steady_pure _
    · exact hself id

theorem steady_fieldType (f : Field) (ctx : FieldContext) :
    Steady g (fieldType g self f ctx) := by
  have lift {α : Type} {V : BuildState → Prop} (e : Except Fault α) :
      Upholds g V (fieldType.liftExcept e) V := by
    cases e with
    | ok a => exact upholds_pure a
    | error e => exact upholds_throw e
  unfold fieldType
  split
  · next codec _ =>
    dsimp only
    split
    · next register _ =>
      -- a codec sees the registry only
      refine upholds_get fun s _ => (lift _).bind fun registry => ?_
      refine Upholds.bind (W := fun _ => True) ?_ fun _ => lift _
      exact upholds_set rfl rfl rfl
    · exact lift _
  · split
    · exact steady_intReprType _ _ _
    · exact steady_keyReprType hself _ _ _ _
    · exact hself _

theorem steady_fieldDefs (owner : Shape) (ownerName : String) (variant : Option Variant)
    (fields : List Field) : Steady g (fieldDefs g self owner ownerName variant fields) := by
  refine steady_mapM (fun f => ?_) _
  unfold fieldDef
  refine (steady_pushTrail _).bind fun _ => (steady_fieldType hself f _).bind fun t => ?_
  refine (steady_validConstraints _ _ _).bind fun cs => ?_
  exact steady_popTrail.bind fun _ => steady_pure _

theorem steady_variantClass (owner : Shape) (internal rendered tag : String) (v : Variant) :
    Steady g (variantClass g self owner internal rendered tag v) := by
  unfold variantClass
  dsimp only
  split
  · exact steady_fail_bind _ _ _
  refine (steady_pushTrail _).bind fun _ => (steady_fieldDefs hself _ _ _ _).bind fun fs => ?_
  exact steady_popTrail.bind fun _ => steady_registerClass _

/-! ## Structs and enums -/

theorem upholds_structType {id : ShapeId} {d : Declared} {fields : List Field}
    (hs : g.shape id = .struct d fields) :
    Upholds g (fun _ => True) (structType g self id d fields) (HasName id) := by
  have hname : d.baseName = (g.shape id).declaration.baseName := by rw [hs]; rfl
  unfold structType
  rw [hname]
  refine (upholds_internalName (by rw [hs]; rfl)).bind fun internal => ?_
  refine ((steady_validConstraints _ _ _).hasName id).bind fun cs => ?_
  refine (upholds_visit _).bind fun _ => ?_
  refine ((steady_fieldDefs hself _ _ _ _).hasName id).bind fun fs => ?_
  exact ((steady_registerClass _).hasName id).bind fun _ => upholds_pure _

theorem upholds_enumType (tag : String) {id : ShapeId} {d : Declared} {own : Option String}
    {asUnion : Bool} {vs : List Variant} (hs : g.shape id = .enum d own asUnion vs) :
    Upholds g (fun _ => True) (enumType g tag self id d own asUnion vs) (HasName id) := by
  have hname : d.baseName = (g.shape id).declaration.baseName := by rw [hs]; rfl
  unfold enumType
  rw [hname]
  dsimp only
  refine (upholds_internalName (by rw [hs]; rfl)).bind fun internal => ?_
  refine ((steady_validConstraints _ _ _).hasName id).bind fun cs => ?_
  split
  · refine (upholds_visit _).bind fun _ => ?_
    refine ((steady_forM (fun v => ?_) _).hasName id).bind fun _ => upholds_pure _
    exact steady_variantClass hself _ _ _ _ v
  split
  · exact (upholds_visit _).bind fun _ => upholds_pure _
  · refine (upholds_visit _).bind fun _ => ?_
    exact ((steady_registerEnum _).hasName id).bind fun _ => upholds_pure _

/-! ## Whole graphs -/

/-- A declared shape has a name once its type is made. -/
theorem upholds_step (tag : String) (id : ShapeId) :
    Upholds g (fun _ => True) (step g tag self id)
      fun s => (g.shape id).isDeclared = true → HasName id s := by
  have undeclared {V : BuildState → Prop} {x : Build (Ty Authored)} (hx : Steady g x)
      (hid : (g.shape id).isDeclared = false) :
      Upholds g V x fun s => (g.shape id).isDeclared = true → HasName id s :=
    hx.imp (fun _ _ => trivial) fun _ _ h => absurd h (by rw [hid]; decide)
  unfold step
  refine upholds_get fun s _ => ?_
  split
  · next t hfound =>
    rintro s hs rfl
    exact .refl hs fun _ _ _ => hs.visited _ (Entries.mem_of_find?_eq_some hfound)
  split
  · next hs => exact undeclared (steady_scalarType _) (by rw [hs]; rfl)
  · next hs => exact undeclared ((hself _).bind fun _ => steady_pure _) (by rw [hs]; rfl)
  · next hs => exact undeclared ((hself _).bind fun _ => steady_pure _) (by rw [hs]; rfl)
  · next kind key value hs =>
    refine undeclared ((hself value).bind fun v => ?_) (by rw [hs]; rfl)
    split
    · exact steady_pure _
    · exact steady_pure _
    · exact steady_pure _
    · exact steady_fail _ _
  · next hs => exact undeclared (hself _) (by rw [hs]; rfl)
  · next hs =>
    exact (upholds_structType hself hs).imp (fun _ _ => trivial) fun _ hid _ => hid
  · next hs =>
    exact (upholds_enumType hself tag hs).imp (fun _ _ => trivial) fun _ hid _ => hid
  · next hs => exact undeclared (steady_fail _ _) (by rw [hs]; rfl)

end

theorem upholds_typeWithin (tag : String) (fuel : Nat) (id : ShapeId) :
    Upholds g (fun _ => True) (typeWithin g tag fuel id)
      fun s => (g.shape id).isDeclared = true → HasName id s := by
  induction fuel generalizing id with
  | zero => exact upholds_throw _
  | succ fuel ih => exact upholds_step (fun id => (ih id).steady) tag id

end Steps

/-! ## Any calls -/

/-- A call to a builder: a shape is built as the root of a new trail, or where the trail stands. -/
inductive Call where
  | build (id : ShapeId)
  | buildType (id : ShapeId)

def Call.id : Call → ShapeId
  | build id | buildType id => id

def Call.run (g : Graph) (tag : String) : Call → Build (Ty Authored)
  | build id => Builder.build g tag id
  | buildType id => Builder.buildType g tag id

/-- The state that calls lead to, one after the other; a call that fails leaves what it did. -/
def after (g : Graph) (tag : String) (s : BuildState) (calls : List Call) : BuildState :=
  calls.foldl (fun s call => ((call.run g tag).run.run s).2) s

section

variable {g : Graph} {s : BuildState}

theorem upholds_call (tag : String) (call : Call) : Upholds g (fun _ => True) (call.run g tag)
    fun s => (g.shape call.id).isDeclared = true → HasName call.id s := by
  cases call with
  | build id =>
    have root : Steady g (modify fun s => { s with trail := [(g.shape id).ident] }) :=
      steady_modify (fun _ => rfl) (fun _ => rfl) fun _ => rfl
    exact Upholds.bind root fun _ => upholds_typeWithin tag _ id
  | buildType id => exact upholds_typeWithin tag _ id

theorem orderly_start : Orderly g {} := ⟨.none, fun _ hp => nomatch hp⟩

/-- After any calls names are in order, and those given before are still there. -/
theorem orderly_after (tag : String) (calls : List Call) (hs : Orderly g s) :
    Orderly g (after g tag s calls) ∧ s.names <+: (after g tag s calls).names := by
  unfold after
  induction calls generalizing s with
  | nil => exact ⟨hs, List.prefix_rfl⟩
  | cons call calls ih =>
    have first := upholds_call tag call s hs trivial
    obtain ⟨horderly, hnames⟩ := ih first.orderly
    exact ⟨horderly, first.names.trans hnames⟩

/-- A shape's name is looked up or made in one step: it is the one it has, its base name if that is
free, or that with the number where the search ends. -/
theorem exists_ran_internalName (s : BuildState) (id : ShapeId) (base : String) :
    ∃ name s', Ran (internalName id base) s name s' ∧
      Entries.find? s'.names id = some name ∧
      (Entries.find? s.names id = some name ∧ s' = s ∨
        Entries.find? s.names id = none ∧
          (base ∉ s.names.map Prod.snd ∧ name = base ∨
            base ∈ s.names.map Prod.snd ∧
              Searches (s.names.map Prod.snd) base s.counter s'.counter ∧
              name = numbered base s'.counter)) := by
  cases hfind : Entries.find? s.names id with
  | some name => exact ⟨name, s, ran_internalName_known hfind, hfind, .inl ⟨rfl, rfl⟩⟩
  | none =>
    by_cases hused : base ∈ s.names.map Prod.snd
    · obtain ⟨n, hsearch, hran⟩ := ran_internalName_counted hfind hused
      exact ⟨_, _, hran, find?_append_self hfind, .inr ⟨rfl, .inr ⟨hused, hsearch, rfl⟩⟩⟩
    · exact ⟨_, _, ran_internalName_plain hfind hused, find?_append_self hfind,
        .inr ⟨rfl, .inl ⟨hused, rfl⟩⟩⟩

end

/-- Internal names are unique and stable. After any calls to one builder, on any graph: no shape has
two names and no two shapes have one; in the order in which shapes were met, each has its base name
if no shape before has it and otherwise that with a positive number; a struct or enum whose type a
call has made has a name, and further calls leave every name as it is. Whatever a builder has done,
asking for a name ends: a shape gets the name it has, or a free one. -/
theorem names_after (g : Graph) (tag : String) :
    (∀ calls s, s = after g tag {} calls →
      ((Entries.keys s.names).Nodup ∧ (s.names.map Prod.snd).Nodup) ∧
      (∀ pre id name post, s.names = pre ++ (id, name) :: post →
        (g.shape id).isDeclared = true ∧
        (((g.shape id).declaration.baseName ∉ pre.map Prod.snd ∧
            name = (g.shape id).declaration.baseName) ∨
          ((g.shape id).declaration.baseName ∈ pre.map Prod.snd ∧
            ∃ n, 0 < n ∧ name = numbered (g.shape id).declaration.baseName n))) ∧
      (∀ (call : Call) t s', Ran (call.run g tag) s t s' → (g.shape call.id).isDeclared = true →
        ∃ name, Entries.find? s'.names call.id = some name) ∧
      ∀ more id name, Entries.find? s.names id = some name →
        Entries.find? (after g tag s more).names id = some name) ∧
    ∀ s id base, ∃ name s', Ran (internalName id base) s name s' ∧
      Entries.find? s'.names id = some name ∧
      (Entries.find? s.names id = some name ∧ s' = s ∨
        Entries.find? s.names id = none ∧
          (base ∉ s.names.map Prod.snd ∧ name = base ∨
            base ∈ s.names.map Prod.snd ∧
              Searches (s.names.map Prod.snd) base s.counter s'.counter ∧
              name = numbered base s'.counter)) := by
  refine ⟨fun calls s hs => ?_, exists_ran_internalName⟩
  have horderly : Orderly g s := hs ▸ (orderly_after tag calls orderly_start).1
  refine ⟨horderly.given.distinct, fun pre id name post => horderly.given.place,
    fun call t s' hran hdeclared => ?_, fun more id name hname => ?_⟩
  · have ends := upholds_call tag call s horderly trivial
    unfold Ran at hran
    rw [hran] at ends
    exact Entries.exists_find? (ends.reached t rfl hdeclared)
  · exact find?_of_extends (orderly_after tag more horderly).2 hname

/-- A struct called `Item`, unless another name is given. -/
def item (internal : Option String) (checks : List Rule) : Shape :=
  .struct { ident := "Item", internalName := internal, checks := checks } []

/-- Shapes that want one name, one that wants the name with a number, and one that is refused after
it got its name. -/
def items : Graph := ⟨#[item none [], item none [], item (some "Item__1") [],
  .enum { ident := "Item" } none false [], item none [⟨some "x", ""⟩]]⟩

/-- The numbered name is wanted as a base name before it is needed. -/
def itemCalls : List Call := [.buildType 0, .build 2, .buildType 1, .build 4, .buildType 0]

/-- The numbered name is given before it is wanted as a base name. -/
def itemCallsTurned : List Call := [.buildType 1, .build 3, .buildType 2]

theorem names_after_items :
    (after items "type" {} itemCalls).names
      = [(0, "Item"), (2, "Item__1"), (1, "Item__2"), (4, "Item__3")] ∧
    (after items "type" {} itemCallsTurned).names
      = [(1, "Item"), (3, "Item__1"), (2, "Item__1__2")] ∧
    ((after items "type" {} itemCalls).names.map Prod.snd).Nodup ∧
    Entries.find? (after items "type" (after items "type" {} itemCalls) itemCallsTurned).names 1
      = some "Item__2" := by
  have names : (after items "type" {} itemCalls).names
      = [(0, "Item"), (2, "Item__1"), (1, "Item__2"), (4, "Item__3")] := by decide
  obtain ⟨distinct, -, -, stable⟩ := (names_after items "type").1 itemCalls _ rfl
  refine ⟨names, by decide, distinct.2, stable itemCallsTurned 1 "Item__2" ?_⟩
  rw [names]
  decide

end ShapeSchema.Builder
