import ShapeSchema.Proofs.Shape.Typed

/-!
# What building makes

`Sound` is the invariant of a builder: every class and enum that is registered stands for a struct,
variant, entry or enum of the graph, and every struct and enum that has been met is complete, apart
from those whose fields are being walked. The main result is `built_of_buildSchema`: a graph without
codecs whose schema is built leaves a state in which the root has its type and everything is
complete.
-/

namespace ShapeSchema.Builder

variable {g : Graph} {tag : String}

/-! ## The invariant -/

/-- The invariant of a builder; `pending` holds of the structs and enums whose fields are being
walked. -/
structure Sound (g : Graph) (tag : String) (pending : ShapeId × Ty Authored → Prop)
    (s : BuildState) : Prop where
  names : DistinctNames s
  named : ∀ p ∈ s.names, p.1 ∈ Entries.keys s.visited
  visited : ∀ p ∈ s.visited, (g.shape p.1).isDeclared = true ∧ (pending p ∨ Complete g tag s p.1 p.2)
  classes : ∀ c ∈ s.registry.classes, ∃ src ∈ classSources g s.names, Defines g tag s src c
  enums : ∀ e ∈ s.registry.enums, ∃ p ∈ s.names, DefinesEnum g p e
  aliases : s.registry.aliases = []

/-- Once nothing is being walked, everything is registered that a struct or enum refers to. -/
theorem Sound.complete {s : BuildState} (hs : Sound g tag (fun _ => False) s) {id : ShapeId}
    {t : Ty Authored} (hv : Entries.find? s.visited id = some t) : Complete g tag s id t :=
  (hs.visited _ (Entries.mem_of_find?_eq_some hv)).2.resolve_left not_false

/-- Two states that differ in the trail and the log at most. -/
structure Alike (s s' : BuildState) : Prop where
  visited : s'.visited = s.visited
  names : s'.names = s.names
  registry : s'.registry = s.registry

namespace Alike

variable {s s' t : BuildState}

theorem refl (s : BuildState) : Alike s s := ⟨rfl, rfl, rfl⟩

theorem trans (h : Alike s s') (k : Alike s' t) : Alike s t :=
  ⟨k.visited.trans h.visited, k.names.trans h.names, k.registry.trans h.registry⟩

theorem grows (h : Alike s s') : Grows s s' := by
  obtain ⟨hv, hn, hr⟩ := h
  exact ⟨hv.symm ▸ List.prefix_rfl, hn.symm ▸ List.prefix_rfl, hr.symm ▸ List.prefix_rfl,
    hr.symm ▸ List.prefix_rfl, by rw [hr]⟩

end Alike

namespace Sound

variable {pending : ShapeId × Ty Authored → Prop} {s s' : BuildState}

/-- The invariant survives growth that adds only what it speaks of. -/
theorem of_grows (h : Sound g tag pending s) (grows : Grows s s') (names : DistinctNames s')
    (named : ∀ p ∈ s'.names, p ∈ s.names ∨ p.1 ∈ Entries.keys s'.visited)
    (visited : ∀ p ∈ s'.visited, p ∈ s.visited ∨
      (g.shape p.1).isDeclared = true ∧ (pending p ∨ Complete g tag s' p.1 p.2))
    (classes : ∀ c ∈ s'.registry.classes, c ∈ s.registry.classes ∨
      ∃ src ∈ classSources g s'.names, Defines g tag s' src c)
    (enums : ∀ e ∈ s'.registry.enums, e ∈ s.registry.enums ∨ ∃ p ∈ s'.names, DefinesEnum g p e) :
    Sound g tag pending s' where
  names := names
  named p hp := by
    rcases named p hp with hp | hp
    · exact (grows.visited.map Prod.fst).subset (h.named p hp)
    · exact hp
  visited p hp := by
    rcases visited p hp with hp | hp
    · exact ⟨(h.visited p hp).1, (h.visited p hp).2.imp_right (·.mono grows)⟩
    · exact hp
  classes c hc := by
    rcases classes c hc with hc | hc
    · obtain ⟨src, hsrc, hdef⟩ := h.classes c hc
      exact ⟨src, mem_classSources_of_extends grows.names hsrc, hdef.mono grows⟩
    · exact hc
  enums e he := by
    rcases enums e he with he | he
    · obtain ⟨p, hp, hdef⟩ := h.enums e he
      exact ⟨p, grows.names.subset hp, hdef⟩
    · exact he
  aliases := grows.aliases.trans h.aliases

theorem alike (h : Sound g tag pending s) (ha : Alike s s') : Sound g tag pending s' := by
  refine h.of_grows ha.grows ?_ (fun p hp => .inl ?_) (fun p hp => .inl ?_) (fun c hc => .inl ?_)
    fun e he => .inl ?_
  · unfold DistinctNames
    rw [ha.names]
    exact h.names
  · rwa [ha.names] at hp
  · rwa [ha.visited] at hp
  · rwa [ha.registry] at hc
  · rwa [ha.registry] at he

end Sound

/-- A step that keeps the invariant, grows the state and gives what `Q` says. -/
def Keeps (g : Graph) (tag : String) {α : Type} (x : Build α) (Q : BuildState → α → Prop) : Prop :=
  ∀ pending s a s', Sound g tag pending s → Ran x s a s' →
    Grows s s' ∧ Sound g tag pending s' ∧ Q s' a

/-! ## Steps that leave definitions alone -/

theorem alike_pushTrail {name : String} {s s' : BuildState} {u : PUnit}
    (h : Ran (pushTrail name) s u s') : Alike s s' := by
  obtain rfl := ran_modify.1 h
  exact ⟨rfl, rfl, rfl⟩

theorem alike_popTrail {s s' : BuildState} {u : PUnit} (h : Ran popTrail s u s') : Alike s s' := by
  obtain rfl := ran_modify.1 h
  exact ⟨rfl, rfl, rfl⟩

theorem alike_log {level : LogLevel} {message : String} {data : Option Native} {s s' : BuildState}
    {u : PUnit} (h : Ran (log level message data) s u s') : Alike s s' := by
  obtain rfl := ran_log.1 h
  exact ⟨rfl, rfl, rfl⟩

theorem ran_validConstraints {shape : Shape} {checks asserts : List Rule} {s s' : BuildState}
    {cs : List Constraint} (h : Ran (validConstraints shape checks asserts) s cs s') :
    s = s' ∧ constraintsOf checks asserts = cs := by
  unfold validConstraints at h
  simp only at h
  split at h
  · exact absurd h not_ran_fail
  · exact (ran_pure.1 h).symm

theorem ran_scalarType {x : Scalar} {s s' : BuildState} {t : Ty Authored}
    (h : Ran (scalarType x) s t s') : scalarType? x = some t ∧ s = s' := by
  cases x with
  | u64 | usize | i128 | u128 => exact absurd h not_ran_fail
  | _ =>
    obtain ⟨rfl, rfl⟩ := ran_pure.1 h
    exact ⟨rfl, rfl⟩

theorem ran_intReprType {repr : IntRepr} : ∀ {fuel : Nat} {id : ShapeId} {s s' : BuildState}
    {t : Ty Authored}, Ran (intReprType g repr fuel id) s t s' → IntType g repr id t ∧ s = s' := by
  intro fuel
  induction fuel with
  | zero => exact fun h => absurd h not_ran_throw
  | succ fuel ih =>
    intro id s s' t h
    unfold intReprType at h
    split at h
    · next inner hs =>
      obtain ⟨t', s1, h1, hp⟩ := ran_bind.1 h
      obtain ⟨rfl, rfl⟩ := ran_pure.1 hp
      obtain ⟨ht, rfl⟩ := ih h1
      exact ⟨.option hs ht, rfl⟩
    · next hs =>
      obtain ⟨t', s1, h1, hp⟩ := ran_bind.1 h
      obtain ⟨rfl, rfl⟩ := ran_pure.1 hp
      obtain ⟨ht, rfl⟩ := ih h1
      exact ⟨.list hs ht, rfl⟩
    · next hs =>
      obtain ⟨ht, rfl⟩ := ih h
      exact ⟨.pointer hs ht, rfl⟩
    · next hs =>
      split at h
      · next hint =>
        obtain ⟨rfl, rfl⟩ := ran_pure.1 h
        have ht : IntType g repr id (.prim (reprPrim repr) {}) := .scalar hs hint
        cases repr <;> exact ⟨ht, rfl⟩
      · exact absurd h not_ran_fail
    · exact absurd h not_ran_fail

/-! ## Registration -/

theorem ran_registerClass {c : ClassDef} {pending : ShapeId × Ty Authored → Prop}
    {s s' : BuildState} {u : PUnit} (h : Ran (registerClass c) s u s')
    (hs : Sound g tag pending s) {src : ClassSource} (hsrc : src ∈ classSources g s.names)
    (hdef : Defines g tag s src c) :
    Grows s s' ∧ Sound g tag pending s' ∧ HasClass s' c.name.real := by
  unfold registerClass at h
  obtain ⟨t, t', hget, h1⟩ := ran_bind.1 h
  obtain ⟨rfl, rfl⟩ := ran_get.1 hget
  have key : ∃ t, Alike s t ∧ { t with registry := t.registry.addClass c } = s' := by
    simp only at h1
    split at h1
    · exact ⟨s, .refl s, ran_modify.1 h1⟩
    · obtain ⟨_, t, hlog, h2⟩ := ran_bind.1 h1
      exact ⟨t, alike_log hlog, ran_modify.1 h2⟩
  obtain ⟨t, ha, rfl⟩ := key
  have ht := hs.alike ha
  unfold Registry.addClass
  split
  · next hhas =>
    refine ⟨ha.grows, ht, ?_⟩
    obtain ⟨d, hd, hname⟩ := List.any_eq_true.1 hhas
    rw [Bool.and_eq_true, beq_iff_eq] at hname
    exact ⟨d, hd, hname.1⟩
  · have grows : Grows t { t with registry := { t.registry with
        classes := t.registry.classes ++ [c] } } :=
      ⟨List.prefix_rfl, List.prefix_rfl, List.prefix_append _ _, List.prefix_rfl, rfl⟩
    refine ⟨ha.grows.trans grows, ht.of_grows grows ht.names (fun p hp => .inl hp)
      (fun p hp => .inl hp) (fun d hd => ?_) (fun e he => .inl he), c, List.mem_append_right _ List.mem_cons_self, rfl⟩
    rcases List.mem_append.1 hd with hd | hd
    · exact .inl hd
    · rw [List.mem_singleton.1 hd]
      exact .inr ⟨src, mem_classSources_of_extends (ha.grows.trans grows).names hsrc,
        (hdef.mono ha.grows).mono grows⟩

theorem ran_registerEnum {e : EnumDef} {pending : ShapeId × Ty Authored → Prop}
    {s s' : BuildState} {u : PUnit} (h : Ran (registerEnum e) s u s')
    (hs : Sound g tag pending s) {p : ShapeId × String} (hp : p ∈ s.names)
    (hdef : DefinesEnum g p e) :
    Grows s s' ∧ Sound g tag pending s' ∧ ∃ d ∈ s'.registry.enums, d.name.real = e.name.real := by
  unfold registerEnum at h
  obtain ⟨_, t, hmod, hlog⟩ := ran_bind.1 h
  have ha := alike_log hlog
  obtain rfl := ran_modify.1 hmod
  have key : ∀ t, Grows s t ∧ Sound g tag pending t ∧
      (∃ d ∈ t.registry.enums, d.name.real = e.name.real) → Alike t s' →
      Grows s s' ∧ Sound g tag pending s' ∧
        ∃ d ∈ s'.registry.enums, d.name.real = e.name.real := by
    rintro t ⟨grows, ht, d, hd, hname⟩ ha
    exact ⟨grows.trans ha.grows, ht.alike ha, d, ha.grows.enums.subset hd, hname⟩
  refine key _ ?_ ha
  unfold Registry.addEnum
  split
  · next hhas =>
    obtain ⟨d, hd, hname⟩ := List.any_eq_true.1 hhas
    exact ⟨.refl s, hs, d, hd, by simpa using hname⟩
  · have grows : Grows s { s with registry := { s.registry with
        enums := s.registry.enums ++ [e] } } :=
      ⟨List.prefix_rfl, List.prefix_rfl, List.prefix_rfl, List.prefix_append _ _, rfl⟩
    refine ⟨grows, hs.of_grows grows hs.names (fun p hp => .inl hp) (fun p hp => .inl hp)
      (fun c hc => .inl hc) (fun d hd => ?_), e, List.mem_append_right _ List.mem_cons_self, rfl⟩
    rcases List.mem_append.1 hd with hd | hd
    · exact .inl hd
    · rw [List.mem_singleton.1 hd]
      exact .inr ⟨p, hp, hdef⟩

/-! ## Fields -/

/-- Where a struct, or a variant of an enum, stands in the graph. -/
structure Owns (g : Graph) (id : ShapeId) (owner : String) (v : Option Variant) (fields : List Field)
    (s : BuildState) : Prop where
  group : fields ∈ (g.shape id).fieldGroups
  entries : ∀ f ∈ fields, g.writesPairs f = true →
    ClassSource.entry id owner v f ∈ classSources g s.names

theorem Owns.mono {id : ShapeId} {owner : String} {v : Option Variant} {fields : List Field}
    {s s' : BuildState} (h : Owns g id owner v fields s) (grows : Grows s s') :
    Owns g id owner v fields s' :=
  ⟨h.group, fun f hf hw => mem_classSources_of_extends grows.names (h.entries f hf hw)⟩

section
variable {self : ShapeId → Build (Ty Authored)}
  (hself : ∀ id, g.Below Shape.CodecFree id → Keeps g tag (self id) fun s t => HasType g s id t)
include hself

theorem ran_entryClass {key value : ShapeId} {ctx : FieldContext} {name : String}
    (hkey : g.Below Shape.CodecFree key) (hvalue : g.Below Shape.CodecFree value)
    {pending : ShapeId × Ty Authored → Prop} {s s' : BuildState}
    (h : Ran (entryClass self key value ctx) s name s') (hs : Sound g tag pending s)
    {id : ShapeId} {owner : String} {v : Option Variant} {f : Field} {kind : Keyed}
    (hctx : ctx = ownerContext owner v f) (hmap : g.mapBelow? f.shape = some (kind, key, value))
    (hsrc : ClassSource.entry id owner v f ∈ classSources g s.names) :
    Grows s s' ∧ Sound g tag pending s' ∧ name = (entryClassName ctx).1 ∧ HasClass s' name ∧
      (∃ k, HasType g s' key k) ∧ ∃ x, HasType g s' value x := by
  subst hctx
  unfold entryClass at h
  simp only at h
  obtain ⟨k, s1, hk, h1⟩ := ran_bind.1 h
  obtain ⟨x, s2, hx, h2⟩ := ran_bind.1 h1
  obtain ⟨_, s3, hreg, h3⟩ := ran_bind.1 h2
  obtain ⟨rfl, rfl⟩ := ran_pure.1 h3
  obtain ⟨g1, sound1, t1⟩ := hself key hkey pending s k s1 hs hk
  obtain ⟨g2, sound2, t2⟩ := hself value hvalue pending s1 x s2 sound1 hx
  have hsrc2 := mem_classSources_of_extends (g1.trans g2).names hsrc
  obtain ⟨g3, sound3, hclass⟩ := ran_registerClass hreg sound2 hsrc2
    ⟨rfl, .entry hmap (t1.mono g2) t2⟩
  exact ⟨g1.trans (g2.trans g3), sound3, rfl, hclass, ⟨k, t1.mono (g2.trans g3)⟩, x, t2.mono g3⟩

theorem ran_keyReprType {repr : KeyRepr} {ctx : FieldContext}
    {pending : ShapeId × Ty Authored → Prop} {oid : ShapeId} {owner : String} {v : Option Variant}
    {f : Field} (hctx : ctx = ownerContext owner v f) :
    ∀ {fuel : Nat} {id : ShapeId} {s s' : BuildState} {t : Ty Authored},
      g.Below Shape.CodecFree id → g.mapWithin? fuel id = g.mapBelow? f.shape →
      (repr = .pairs → (g.mapBelow? f.shape).isSome = true →
        ClassSource.entry oid owner v f ∈ classSources g s.names) →
      Ran (keyReprType g self repr ctx fuel id) s t s' → Sound g tag pending s →
      Grows s s' ∧ Sound g tag pending s' ∧ KeyType g s' repr f ctx id t := by
  intro fuel
  induction fuel with
  | zero => exact fun _ _ _ h => absurd h not_ran_throw
  | succ fuel ih =>
    intro id s s' t hbelow hmap hsrc h hs
    unfold Graph.mapWithin? at hmap
    unfold keyReprType at h
    split at h
    · next inner hshape =>
      rw [hshape] at hmap
      obtain ⟨t', s1, h1, hp⟩ := ran_bind.1 h
      obtain ⟨rfl, rfl⟩ := ran_pure.1 hp
      obtain ⟨g1, sound1, k1⟩ := ih (hbelow.option hshape) hmap hsrc h1 hs
      exact ⟨g1, sound1, .option hshape k1⟩
    · next kind inner hshape =>
      rw [hshape] at hmap
      obtain ⟨t', s1, h1, hp⟩ := ran_bind.1 h
      obtain ⟨rfl, rfl⟩ := ran_pure.1 hp
      obtain ⟨g1, sound1, k1⟩ := ih (hbelow.item hshape) hmap hsrc h1 hs
      exact ⟨g1, sound1, .list hshape k1⟩
    · next kind inner hshape =>
      rw [hshape] at hmap
      obtain ⟨g1, sound1, k1⟩ := ih (hbelow.pointer hshape) hmap hsrc h hs
      exact ⟨g1, sound1, .pointer hshape k1⟩
    · next kind key value hshape =>
      rw [hshape] at hmap
      have hkey : g.Below Shape.CodecFree key := hbelow.key hshape
      have hvalue : g.Below Shape.CodecFree value := hbelow.value hshape
      cases repr with
      | text =>
        obtain ⟨x, s1, hx, hp⟩ := ran_bind.1 h
        obtain ⟨rfl, rfl⟩ := ran_pure.1 hp
        obtain ⟨g1, sound1, t1⟩ := hself value hvalue pending s x s1 hs hx
        exact ⟨g1, sound1, .text hshape hmap.symm rfl t1⟩
      | pairs =>
        obtain ⟨name, s1, hname, hp⟩ := ran_bind.1 h
        obtain ⟨rfl, rfl⟩ := ran_pure.1 hp
        obtain ⟨g1, sound1, rfl, hclass, ⟨k, hk⟩, x, hx⟩ := ran_entryClass hself hkey hvalue hname hs
          hctx hmap.symm (hsrc rfl (by rw [← hmap]; rfl))
        exact ⟨g1, sound1, .pairs hshape hmap.symm rfl hk hx hclass⟩
    · obtain ⟨g1, sound1, t1⟩ := hself id hbelow pending s t s' hs h
      refine ⟨g1, sound1, .other ?_ t1⟩
      cases t1 with
      | declared hd => exact .inl hd
      | scalar hx => exact .inr ⟨_, hx⟩
      | _ => simp_all

theorem ran_fieldType {id : ShapeId} {owner : String} {v : Option Variant} {fields : List Field}
    {f : Field} {pending : ShapeId × Ty Authored → Prop} {s s' : BuildState} {t : Ty Authored}
    (hbelow : g.Below Shape.CodecFree id) (howns : Owns g id owner v fields s) (hf : f ∈ fields)
    (hskip : f.skip = false) (h : Ran (fieldType g self f (ownerContext owner v f)) s t s')
    (hs : Sound g tag pending s) :
    Grows s s' ∧ Sound g tag pending s' ∧ BareType g s' f (ownerContext owner v f) t := by
  have hfbelow : g.Below Shape.CodecFree f.shape :=
    hbelow.child (Shape.mem_children_of_field howns.group hf)
  unfold fieldType at h
  rw [hbelow.self fields howns.group f hf] at h
  simp only at h
  split at h
  · next repr key hint =>
    obtain ⟨ht, rfl⟩ := ran_intReprType h
    exact ⟨.refl s, hs, .ints hint ht⟩
  · next repr hint hkey =>
    have hsrc : repr = .pairs → (g.mapBelow? f.shape).isSome = true →
        ClassSource.entry id owner v f ∈ classSources g s.names := by
      rintro rfl hmap
      refine howns.entries f hf ?_
      unfold Graph.writesPairs
      rw [hskip, hint, hkey, hmap]
      rfl
    obtain ⟨g1, sound1, k1⟩ := ran_keyReprType hself rfl hfbelow rfl hsrc h hs
    exact ⟨g1, sound1, .keyed hint hkey k1⟩
  · next hint hkey =>
    obtain ⟨g1, sound1, t1⟩ := hself f.shape hfbelow pending s t s' hs h
    exact ⟨g1, sound1, .plain hint hkey t1⟩

theorem ran_fieldDef {shape : Shape} {id : ShapeId} {owner : String} {v : Option Variant}
    {fields : List Field} {f : Field} {pending : ShapeId × Ty Authored → Prop} {s s' : BuildState}
    {d : FieldDef} (hbelow : g.Below Shape.CodecFree id) (howns : Owns g id owner v fields s)
    (hf : f ∈ fields) (hskip : f.skip = false) (h : Ran (fieldDef g self shape owner v f) s d s')
    (hs : Sound g tag pending s) :
    Grows s s' ∧ Sound g tag pending s' ∧ DefinesField g s' owner v f d := by
  unfold fieldDef at h
  obtain ⟨_, s1, hpush, h1⟩ := ran_bind.1 h
  obtain ⟨t, s2, htype, h2⟩ := ran_bind.1 h1
  obtain ⟨cs, s3, hcs, h3⟩ := ran_bind.1 h2
  obtain ⟨_, s4, hpop, h4⟩ := ran_bind.1 h3
  obtain ⟨rfl, rfl⟩ := ran_pure.1 h4
  obtain ⟨rfl, rfl⟩ := ran_validConstraints hcs
  have a1 := alike_pushTrail hpush
  have a4 := alike_popTrail hpop
  obtain ⟨g2, sound2, t2⟩ := ran_fieldType hself hbelow (howns.mono a1.grows) hf hskip htype
    (hs.alike a1)
  have hdef : DefinesField g s2 owner v f (definedField f t) := ⟨t, t2, rfl⟩
  exact ⟨a1.grows.trans (g2.trans a4.grows), sound2.alike a4, hdef.mono a4.grows⟩

theorem ran_fieldDefs {shape : Shape} {id : ShapeId} {owner : String} {v : Option Variant}
    {fields : List Field} {pending : ShapeId × Ty Authored → Prop} {s s' : BuildState}
    {ds : List FieldDef} (hbelow : g.Below Shape.CodecFree id) (howns : Owns g id owner v fields s)
    (h : Ran (fieldDefs g self shape owner v fields) s ds s') (hs : Sound g tag pending s) :
    Grows s s' ∧ Sound g tag pending s' ∧ DefinesFields g s' owner v fields ds := by
  refine forall₂_of_ran_mapM (Q := fun s f d => DefinesField g s owner v f d)
    (fun _ _ _ _ grows hq => hq.mono grows) ?_ hs h
  intro f hf t d t' hst hgood hran
  obtain ⟨hmem, hskip⟩ := List.mem_filter.1 hf
  exact ran_fieldDef hself hbelow (howns.mono hst) hmem (by simpa using hskip) hran hgood

end

/-! ## Structs and enums -/

/-- A struct or enum receives its name and its type before its fields are walked. -/
theorem Sound.enter {pending : ShapeId × Ty Authored → Prop} {s s' : BuildState} {id : ShapeId}
    {base n : String} (hs : Sound g tag pending s) (hd : (g.shape id).isDeclared = true)
    (hn : Ran (internalName id base) s n s') (hnew : Entries.find? s.visited id = none)
    (t : Ty Authored) :
    Grows s { s' with visited := s'.visited ++ [(id, t)] } ∧
      Sound g tag (fun p => pending p ∨ p = (id, t)) { s' with visited := s'.visited ++ [(id, t)] } ∧
      Entries.find? s'.names id = some n ∧
      Entries.find? (s'.visited ++ [(id, t)]) id = some t := by
  obtain ⟨g1, names1, find1, added1, visited1, registry1⟩ := ran_internalName hn hs.names
  have grows : Grows s { s' with visited := s'.visited ++ [(id, t)] } :=
    g1.trans ⟨List.prefix_append _ _, List.prefix_rfl, List.prefix_rfl, List.prefix_rfl, rfl⟩
  have weaker : Sound g tag (fun p => pending p ∨ p = (id, t)) s :=
    ⟨hs.names, hs.named, fun p hp => ⟨(hs.visited p hp).1, (hs.visited p hp).2.imp_left .inl⟩,
      hs.classes, hs.enums, hs.aliases⟩
  refine ⟨grows, ?_, find1, find?_append_self (by rwa [visited1])⟩
  refine weaker.of_grows grows names1 (fun p hp => (added1 p hp).imp_right fun he => ?_)
    (fun p hp => ?_) (fun c hc => .inl (by rwa [registry1] at hc))
    fun e he => .inl (by rwa [registry1] at he)
  · exact List.mem_map.2 ⟨(id, t), List.mem_append_right _ List.mem_cons_self, he.symm⟩
  · rcases List.mem_append.1 hp with hp | hp
    · exact .inl (by rwa [visited1] at hp)
    · rw [List.mem_singleton.1 hp]
      exact .inr ⟨hd, .inl (.inr rfl)⟩

theorem Sound.close {pending : ShapeId × Ty Authored → Prop} {s : BuildState} {id : ShapeId}
    {t : Ty Authored} (hs : Sound g tag (fun p => pending p ∨ p = (id, t)) s)
    (hc : Complete g tag s id t) : Sound g tag pending s := by
  refine ⟨hs.names, hs.named, fun p hp => ⟨(hs.visited p hp).1, ?_⟩, hs.classes, hs.enums,
    hs.aliases⟩
  rcases (hs.visited p hp).2 with (h | rfl) | h
  · exact .inl h
  · exact .inr hc
  · exact .inr h

section
variable {self : ShapeId → Build (Ty Authored)}
  (hself : ∀ id, g.Below Shape.CodecFree id → Keeps g tag (self id) fun s t => HasType g s id t)
include hself

theorem ran_structType {id : ShapeId} {d : Declared} {fields : List Field}
    (hshape : g.shape id = .struct d fields) (hbelow : g.Below Shape.CodecFree id)
    {pending : ShapeId × Ty Authored → Prop} {s s' : BuildState} {t : Ty Authored}
    (hs : Sound g tag pending s) (hnew : Entries.find? s.visited id = none)
    (h : Ran (structType g self id d fields) s t s') :
    Grows s s' ∧ Sound g tag pending s' ∧ HasType g s' id t := by
  have hdeclared : (g.shape id).isDeclared = true := by rw [hshape]; rfl
  unfold structType at h
  obtain ⟨n, s1, hn, h1⟩ := ran_bind.1 h
  obtain ⟨cs, s2, hcs, h2⟩ := ran_bind.1 h1
  obtain ⟨rfl, hconstraints⟩ := ran_validConstraints hcs
  simp only at h2
  obtain ⟨_, s3, hvisit, h3⟩ := ran_bind.1 h2
  obtain ⟨ds, s4, hfields, h4⟩ := ran_bind.1 h3
  obtain ⟨_, s5, hreg, h5⟩ := ran_bind.1 h4
  obtain ⟨rfl, rfl⟩ := ran_pure.1 h5
  obtain rfl := ran_modify.1 hvisit
  obtain ⟨g2, sound2, find1, type2⟩ := hs.enter hdeclared hn hnew
    ((Ty.classRef n .complete false {}).withConstraints cs)
  have hmem : (id, n) ∈ s1.names := Entries.mem_of_find?_eq_some find1
  have hsource : ∀ src ∈ sourcesOf g (id, n), src ∈ classSources g s1.names := fun src hsrc =>
    List.mem_flatMap.2 ⟨(id, n), hmem, hsrc⟩
  have hsources : sourcesOf g (id, n) = .struct id n :: entrySources g id n none fields := by
    unfold sourcesOf
    simp only [hshape]
  have howns : Owns g id n none fields { s1 with visited := s1.visited ++
      [(id, (Ty.classRef n .complete false {}).withConstraints cs)] } := by
    refine ⟨by rw [hshape]; exact List.mem_cons_self, fun f hf hw => hsource _ ?_⟩
    rw [hsources]
    exact List.mem_cons_of_mem _ (List.mem_map.2 ⟨f, List.mem_filter.2 ⟨hf, hw⟩, rfl⟩)
  obtain ⟨g3, sound3, defs3⟩ := ran_fieldDefs hself hbelow howns hfields sound2
  have hsrc : ClassSource.struct id n ∈ classSources g s4.names := by
    refine mem_classSources_of_extends g3.names (hsource _ ?_)
    rw [hsources]
    exact List.mem_cons_self
  have hdef : Defines g tag s4 (.struct id n) {
      name := .of n d.rendered
      description := d.description.or (docDescription d.doc)
      fields := ds
      constraints := cs } := by
    refine ⟨?_, .struct hshape defs3⟩
    rw [classHead, hshape, ← hconstraints]
    rfl
  obtain ⟨g4, sound4, hclass⟩ := ran_registerClass hreg sound3 hsrc hdef
  have find4 : Entries.find? s5.names id = some n :=
    find?_of_extends (g3.trans g4).names find1
  exact ⟨g2.trans (g3.trans g4), sound4.close (.struct hshape find4 hclass (defs3.mono g4)),
    .declared hdeclared (find?_of_extends (g3.trans g4).visited type2)⟩

theorem ran_variantClass {id : ShapeId} {d : Declared} {own : Option String} {u : Bool}
    {vs : List Variant} (hshape : g.shape id = .enum d own u vs) (hdata : isDataEnum vs = true)
    (hbelow : g.Below Shape.CodecFree id) {v : Variant} (hv : v ∈ vs)
    {pending : ShapeId × Ty Authored → Prop} {n : String} {s s' : BuildState} {w : PUnit}
    (hs : Sound g tag pending s) (hn : (id, n) ∈ s.names)
    (h : Ran (variantClass g self (.enum d own u vs) n d.rendered (own.getD tag) v) s w s') :
    Grows s s' ∧ Sound g tag pending s' ∧ HasVariant g (own.getD tag) s' n v := by
  have hsource : ∀ src ∈ ClassSource.variant id n v :: entrySources g id n (some v) v.fields,
      src ∈ classSources g s.names := by
    intro src hsrc
    refine List.mem_flatMap.2 ⟨(id, n), hn, ?_⟩
    unfold sourcesOf
    simp only [hshape, hdata, if_true]
    exact List.mem_flatMap.2 ⟨v, hv, hsrc⟩
  unfold variantClass at h
  simp only at h
  split at h
  · obtain ⟨_, _, hfail, -⟩ := ran_bind.1 h
    exact absurd hfail not_ran_fail
  next hfree =>
  obtain ⟨_, s1, hpush, h1⟩ := ran_bind.1 h
  obtain ⟨ds, s2, hfields, h2⟩ := ran_bind.1 h1
  obtain ⟨_, s3, hpop, h3⟩ := ran_bind.1 h2
  have a1 := alike_pushTrail hpush
  have a3 := alike_popTrail hpop
  have howns : Owns g id n (some v) v.fields s := by
    refine ⟨?_, fun f hf hw => hsource _ ?_⟩
    · rw [hshape]
      exact List.mem_map.2 ⟨v, hv, rfl⟩
    · exact List.mem_cons_of_mem _ (List.mem_map.2 ⟨f, List.mem_filter.2 ⟨hf, hw⟩, rfl⟩)
  obtain ⟨g2, sound2, defs2⟩ := ran_fieldDefs hself hbelow (howns.mono a1.grows) hfields
    (hs.alike a1)
  have g3 := a1.grows.trans (g2.trans a3.grows)
  have htag : TagFree (own.getD tag) v.fields := by
    intro f hf
    have := List.find?_eq_none.1 (Option.eq_none_iff_forall_ne_some.2 hfree) f hf
    simpa using this
  obtain ⟨g4, sound4, hclass⟩ := ran_registerClass h3 (sound2.alike a3)
    (mem_classSources_of_extends g3.names (hsource _ List.mem_cons_self))
    ⟨by rw [classHead, hshape]; rfl, .variant hshape htag (defs2.mono a3.grows)⟩
  exact ⟨g3.trans g4, sound4, hclass, htag, ds, defs2.mono (a3.grows.trans g4)⟩

theorem ran_enumType {id : ShapeId} {d : Declared} {own : Option String} {u : Bool}
    {vs : List Variant} (hshape : g.shape id = .enum d own u vs)
    (hbelow : g.Below Shape.CodecFree id) {pending : ShapeId × Ty Authored → Prop}
    {s s' : BuildState} {t : Ty Authored} (hs : Sound g tag pending s)
    (hnew : Entries.find? s.visited id = none) (h : Ran (enumType g tag self id d own u vs) s t s') :
    Grows s s' ∧ Sound g tag pending s' ∧ HasType g s' id t := by
  have hdeclared : (g.shape id).isDeclared = true := by rw [hshape]; rfl
  unfold enumType at h
  simp only at h
  obtain ⟨n, s1, hn, h1⟩ := ran_bind.1 h
  obtain ⟨cs, s2, hcs, h2⟩ := ran_bind.1 h1
  obtain ⟨rfl, hconstraints⟩ := ran_validConstraints hcs
  have enter := fun t => hs.enter hdeclared hn hnew t
  split at h2
  · next hdata =>
    obtain ⟨_, s3, hvisit, h3⟩ := ran_bind.1 h2
    obtain ⟨_, s4, hclasses, h4⟩ := ran_bind.1 h3
    obtain ⟨rfl, rfl⟩ := ran_pure.1 h4
    obtain rfl := ran_modify.1 hvisit
    obtain ⟨g2, sound2, find1, type2⟩ := enter ((Ty.unionOf (vs.map fun v =>
      Ty.classRef (variantClassName n v) .complete false {}) {}).withConstraints cs)
    have hmem : (id, n) ∈ s1.names := Entries.mem_of_find?_eq_some find1
    obtain ⟨g3, sound3, has3⟩ := forall_of_ran_forM
      (I := Sound g tag fun p => pending p ∨ p = (id, (Ty.unionOf (vs.map fun v =>
        Ty.classRef (variantClassName n v) .complete false {}) {}).withConstraints cs))
      (Q := fun s v => HasVariant g (own.getD tag) s n v)
      (f := variantClass g self (.enum d own u vs) n d.rendered (own.getD tag))
      (fun _ _ _ grows hq => hq.mono grows)
      (fun v hv t w t' hst hgood hran => ran_variantClass hself hshape hdata hbelow hv hgood
        ((show Grows { s1 with visited := s1.visited ++ [(id, _)] } t from hst).names.subset hmem) hran)
      sound2 hclasses
    have find3 := find?_of_extends g3.names find1
    exact ⟨g2.trans g3, sound3.close (.variants hshape hdata find3 has3),
      .declared hdeclared (find?_of_extends g3.visited type2)⟩
  next hdata =>
  have hunit : isDataEnum vs = false := by simpa using hdata
  split at h2
  · next hunion =>
    obtain ⟨_, s3, hvisit, h3⟩ := ran_bind.1 h2
    obtain ⟨rfl, rfl⟩ := ran_pure.1 h3
    obtain rfl := ran_modify.1 hvisit
    obtain ⟨g2, sound2, -, type2⟩ := enter ((Ty.unionOf (vs.map fun v =>
      Ty.literal (.string v.rendered) {}) {}).withConstraints cs)
    rw [hunion] at hshape
    exact ⟨g2, sound2.close (.texts hshape hunit), .declared hdeclared type2⟩
  · next hunion =>
    obtain ⟨_, s3, hvisit, h3⟩ := ran_bind.1 h2
    obtain ⟨_, s4, hreg, h4⟩ := ran_bind.1 h3
    obtain ⟨rfl, rfl⟩ := ran_pure.1 h4
    obtain rfl := ran_modify.1 hvisit
    obtain ⟨g2, sound2, find1, type2⟩ := enter ((Ty.enumRef n false {}).withConstraints cs)
    have hmem : (id, n) ∈ s1.names := Entries.mem_of_find?_eq_some find1
    obtain ⟨g3, sound3, henum⟩ := ran_registerEnum hreg sound2 hmem
      ⟨d, own, u, vs, hshape, by rw [hconstraints]⟩
    rw [Bool.not_eq_true] at hunion
    rw [hunion] at hshape
    have find3 := find?_of_extends g3.names find1
    exact ⟨g2.trans g3, sound3.close (.enumRef hshape hunit find3 henum),
      .declared hdeclared (find?_of_extends g3.visited type2)⟩

/-- One shape keeps the invariant if the shapes below it do. -/
theorem keeps_step {id : ShapeId} (hbelow : g.Below Shape.CodecFree id) :
    Keeps g tag (step g tag self id) fun s t => HasType g s id t := by
  intro pending s t s' hs h
  unfold step at h
  obtain ⟨_, _, hget, h1⟩ := ran_bind.1 h
  obtain ⟨rfl, rfl⟩ := ran_get.1 hget
  split at h1
  · next u hfound =>
    obtain ⟨rfl, rfl⟩ := ran_pure.1 h1
    exact ⟨.refl s, hs, .declared (hs.visited _ (Entries.mem_of_find?_eq_some hfound)).1 hfound⟩
  next hnew =>
  split at h1
  · next x hshape =>
    obtain ⟨ht, rfl⟩ := ran_scalarType h1
    exact ⟨.refl s, hs, .scalar hshape ht⟩
  · next inner hshape =>
    obtain ⟨u, s1, hu, hp⟩ := ran_bind.1 h1
    obtain ⟨rfl, rfl⟩ := ran_pure.1 hp
    obtain ⟨g1, sound1, t1⟩ := hself inner (hbelow.option hshape) pending s u s1 hs hu
    exact ⟨g1, sound1, .option hshape t1⟩
  · next kind inner hshape =>
    obtain ⟨u, s1, hu, hp⟩ := ran_bind.1 h1
    obtain ⟨rfl, rfl⟩ := ran_pure.1 hp
    obtain ⟨g1, sound1, t1⟩ := hself inner (hbelow.item hshape) pending s u s1 hs hu
    exact ⟨g1, sound1, .list hshape t1⟩
  · next kind key value hshape =>
    obtain ⟨u, s1, hu, h2⟩ := ran_bind.1 h1
    obtain ⟨g1, sound1, t1⟩ := hself value (hbelow.value hshape) pending s u s1 hs hu
    split at h2
    · obtain ⟨rfl, rfl⟩ := ran_pure.1 h2
      exact ⟨g1, sound1, .map hshape (.inl rfl) t1⟩
    · next hkey =>
      obtain ⟨rfl, rfl⟩ := ran_pure.1 h2
      exact ⟨g1, sound1, .map hshape (.inr (.inl hkey)) t1⟩
    · next hkey =>
      obtain ⟨rfl, rfl⟩ := ran_pure.1 h2
      exact ⟨g1, sound1, .map hshape (.inr (.inr hkey)) t1⟩
    · exact absurd h2 not_ran_fail
  · next kind inner hshape =>
    obtain ⟨g1, sound1, t1⟩ := hself inner (hbelow.pointer hshape) pending s t s' hs h1
    exact ⟨g1, sound1, .pointer hshape t1⟩
  · next d fields hshape => exact ran_structType hself hshape hbelow hs hnew h1
  · next d own u vs hshape => exact ran_enumType hself hshape hbelow hs hnew h1
  · exact absurd h1 not_ran_fail

end

/-! ## Top theorems -/

/-- Walking a shape to any depth keeps the invariant. -/
theorem keeps_typeWithin : ∀ (fuel : Nat) (id : ShapeId), g.Below Shape.CodecFree id →
    Keeps g tag (typeWithin g tag fuel id) fun s t => HasType g s id t := by
  intro fuel
  induction fuel with
  | zero => exact fun id _ pending s t s' _ h => absurd h not_ran_throw
  | succ fuel ih => exact fun id hbelow => keeps_step ih hbelow

/-- What is left when a schema has been built. -/
structure Built (g : Graph) (root : ShapeId) (tag : String) (s : BuildState) (target : Ty Authored) :
    Prop where
  sound : Sound g tag (fun _ => False) s
  target : HasType g s root target

/-- A built schema comes from a state in which the root has its type and everything is complete. -/
theorem built_of_buildSchema {root : ShapeId} {b : Bundle} {s : BuildState}
    (hbelow : g.Below Shape.CodecFree root) (h : buildSchema g root tag = (.ok b, s)) :
    ∃ t, b = .of s t tag ∧ Built g root tag s t := by
  unfold buildSchema at h
  rcases hr : (build g tag root).run.run {} with ⟨r, s'⟩
  rw [hr] at h
  cases r with
  | error e => cases h
  | ok t =>
    cases h
    refine ⟨t, rfl, ?_⟩
    obtain ⟨_, s1, hmod, hbuild⟩ := ran_bind.1 (show Ran (build g tag root) {} t s from hr)
    obtain rfl := ran_modify.1 hmod
    have start : Sound g tag (fun _ => False)
        { ({} : BuildState) with trail := [(g.shape root).ident] } :=
      ⟨⟨List.nodup_nil, List.nodup_nil⟩, by simp, by simp, by simp, by simp, rfl⟩
    obtain ⟨-, sound, htype⟩ := keeps_typeWithin _ root hbelow _ _ _ _ start hbuild
    exact ⟨sound, htype⟩

end ShapeSchema.Builder
