import ShapeSchema.Proofs.Shape.Typed

/-!
# Where options and pointers lead to

`landsAt_of_land` says what a landing has in common with the shape it starts from, and `Passes.land`
how the type of the one comes from that of the other: an option in between makes it optional, a
pointer leaves it as it is.
-/

namespace ShapeSchema

/-- Options and pointers. -/
def Shape.isWrapper : Shape → Bool
  | .option _ | .pointer _ _ => true
  | _ => false

namespace Graph

variable {g : Graph} {isNull : Bool}

/-- A shape is reached, and is neither option nor pointer. -/
structure LandsAt (g : Graph) (id sid : ShapeId) (s : Shape) : Prop where
  reaches : g.Reaches id sid
  shape : g.shape sid = s
  bare : s.isWrapper = false

theorem LandsAt.ne_option {id sid inner : ShapeId} {s : Shape} (h : g.LandsAt id sid s) :
    g.shape sid ≠ .option inner := by
  rw [h.shape]
  rintro rfl
  exact absurd h.bare Bool.noConfusion

theorem LandsAt.ne_pointer {id sid inner : ShapeId} {s : Shape} {kind : PointerKind}
    (h : g.LandsAt id sid s) : g.shape sid ≠ .pointer kind inner := by
  rw [h.shape]
  rintro rfl
  exact absurd h.bare Bool.noConfusion

theorem landsAt_of_landWithin : ∀ {fuel : Nat} {id sid : ShapeId} {s : Shape},
    g.landWithin isNull fuel id = .shape sid s → g.LandsAt id sid s := by
  intro fuel
  induction fuel with
  | zero =>
    intro id sid s h
    cases h
  | succ fuel ih =>
    intro id sid s h
    unfold landWithin at h
    split at h
    · next inner hshape =>
      split at h
      · cases h
      · obtain ⟨hr, hs, hb⟩ := ih h
        exact ⟨.head (by rw [hshape]; exact List.mem_cons_self) hr, hs, hb⟩
    · next kind inner hshape =>
      obtain ⟨hr, hs, hb⟩ := ih h
      exact ⟨.head (by rw [hshape]; exact List.mem_cons_self) hr, hs, hb⟩
    · next hopt hptr =>
      cases h
      refine ⟨.refl, rfl, ?_⟩
      unfold Shape.isWrapper
      split
      · next he => exact absurd he (hopt _)
      · next he => exact absurd he (hptr _ _)
      · rfl

theorem landsAt_of_land {id sid : ShapeId} {s : Shape} (h : g.land isNull id = .shape sid s) :
    g.LandsAt id sid s := landsAt_of_landWithin h

/-- A shape that is neither option nor pointer is where it leads to itself. -/
theorem LandsAt.land {id sid : ShapeId} {s : Shape} (h : g.LandsAt id sid s) (isNull : Bool) :
    g.land isNull sid = .shape sid s := by
  unfold Graph.land landWithin
  split
  · next hs => exact absurd hs h.ne_option
  · next hs => exact absurd hs h.ne_pointer
  · rw [h.shape]

theorem land_of_bare {id : ShapeId} {s : Shape} (hs : g.shape id = s) (hbare : s.isWrapper = false)
    (isNull : Bool) : g.land isNull id = .shape id s := LandsAt.land ⟨.refl, hs, hbare⟩ isNull

/-- Only a null ends at an option. -/
theorem isNull_of_landWithin : ∀ {fuel : Nat} {id : ShapeId},
    g.landWithin isNull fuel id = .null → isNull = true := by
  intro fuel
  induction fuel with
  | zero =>
    intro id h
    cases h
  | succ fuel ih =>
    intro id h
    unfold landWithin at h
    split at h
    · split at h
      · next hnull => exact hnull
      · exact ih h
    · exact ih h
    · cases h

theorem Below.land {P : Shape → Prop} {id sid : ShapeId} {s : Shape} (hb : g.Below P id)
    (h : g.LandsAt id sid s) : g.Below P sid := fun i hi => hb i (h.reaches.trans hi)

end Graph

namespace Builder

variable {g : Graph}

/-- What a type of a shape says about the shape behind an option or pointer. -/
structure Passes (g : Graph) (T : ShapeId → Ty Authored → Prop) : Prop where
  option : ∀ {id inner t}, g.shape id = .option inner → T id t → ∃ u, T inner u ∧ t = u.optional
  pointer : ∀ {id kind inner t}, g.shape id = .pointer kind inner → T id t → T inner t

theorem passes_hasType (s : BuildState) : Passes g (HasType g s) where
  option hs h := by
    cases h with
    | declared hd => rw [hs] at hd; cases hd
    | option hs' hu =>
      rw [hs] at hs'
      cases hs'
      exact ⟨_, hu, rfl⟩
    | scalar hs' | list hs' | map hs' | pointer hs' => rw [hs] at hs'; cases hs'
  pointer hs h := by
    cases h with
    | declared hd => rw [hs] at hd; cases hd
    | pointer hs' hu =>
      rw [hs] at hs'
      cases hs'
      exact hu
    | scalar hs' | list hs' | map hs' | option hs' => rw [hs] at hs'; cases hs'

theorem passes_intType (repr : IntRepr) : Passes g (IntType g repr) where
  option hs h := by
    cases h with
    | option hs' hu =>
      rw [hs] at hs'
      cases hs'
      exact ⟨_, hu, rfl⟩
    | scalar hs' | list hs' | pointer hs' => rw [hs] at hs'; cases hs'
  pointer hs h := by
    cases h with
    | pointer hs' hu =>
      rw [hs] at hs'
      cases hs'
      exact hu
    | scalar hs' | list hs' | option hs' => rw [hs] at hs'; cases hs'

theorem passes_keyType (s : BuildState) (repr : KeyRepr) (f : Field) (ctx : FieldContext) :
    Passes g (KeyType g s repr f ctx) where
  option hs h := by
    cases h with
    | option hs' hu =>
      rw [hs] at hs'
      cases hs'
      exact ⟨_, hu, rfl⟩
    | text hs' | pairs hs' | list hs' | pointer hs' => rw [hs] at hs'; cases hs'
    | other hs' =>
      rw [hs] at hs'
      rcases hs' with hs' | ⟨_, hs'⟩ <;> cases hs'
  pointer hs h := by
    cases h with
    | pointer hs' hu =>
      rw [hs] at hs'
      cases hs'
      exact hu
    | text hs' | pairs hs' | list hs' | option hs' => rw [hs] at hs'; cases hs'
    | other hs' =>
      rw [hs] at hs'
      rcases hs' with hs' | ⟨_, hs'⟩ <;> cases hs'

/-- A property of types that options keep goes over from a landing to where it starts. -/
theorem Passes.land {T : ShapeId → Ty Authored → Prop} (hT : Passes g T) {isNull : Bool} :
    ∀ {fuel : Nat} {id sid : ShapeId} {s : Shape} {t : Ty Authored},
      g.landWithin isNull fuel id = .shape sid s → T id t →
      ∃ u, T sid u ∧ ∀ P : Ty Authored → Prop, (∀ x, P x → P x.optional) → P u → P t := by
  intro fuel
  induction fuel with
  | zero =>
    intro id sid s t h
    cases h
  | succ fuel ih =>
    intro id sid s t h ht
    unfold Graph.landWithin at h
    split at h
    · next inner hshape =>
      split at h
      · cases h
      obtain ⟨x, hx, rfl⟩ := hT.option hshape ht
      obtain ⟨u, hu, lift⟩ := ih h hx
      exact ⟨u, hu, fun P hopt hp => hopt x (lift P hopt hp)⟩
    · next kind inner hshape =>
      exact ih h (hT.pointer hshape ht)
    · cases h
      exact ⟨t, ht, fun _ _ hp => hp⟩

/-- A null that ends at an option has an optional type. -/
theorem Passes.land_null {T : ShapeId → Ty Authored → Prop} (hT : Passes g T) {isNull : Bool} :
    ∀ {fuel : Nat} {id : ShapeId} {t : Ty Authored}, g.landWithin isNull fuel id = .null → T id t →
      ∃ u : Ty Authored, t = u.optional := by
  intro fuel
  induction fuel with
  | zero =>
    intro id t h
    cases h
  | succ fuel ih =>
    intro id t h ht
    unfold Graph.landWithin at h
    split at h
    · next inner hshape =>
      obtain ⟨x, -, rfl⟩ := hT.option hshape ht
      exact ⟨x, rfl⟩
    · next kind inner hshape => exact ih h (hT.pointer hshape ht)
    · cases h

end Builder

end ShapeSchema
