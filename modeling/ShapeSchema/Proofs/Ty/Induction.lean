import ShapeSchema.Ty.Streaming

/-!
# Induction on types

The parts of a type stand in lists, so its own induction speaks of lists of types as well. `induct`
speaks of the members of those lists instead, `inductChildren` of the types directly below, and the
functions that walk a list of types are the list operations they look like.
-/

namespace ShapeSchema.Ty

variable {μ ν : Type}

@[elab_as_elim]
theorem induct {P : Ty μ → Prop} (top : ∀ a, P (.top a)) (prim : ∀ p a, P (.prim p a))
    (enumRef : ∀ n d a, P (.enumRef n d a)) (literal : ∀ l a, P (.literal l a))
    (classRef : ∀ n m d a, P (.classRef n m d a)) (list : ∀ i a, P i → P (.list i a))
    (map : ∀ k v a, P k → P v → P (.map k v a))
    (tuple : ∀ is a, (∀ t ∈ is, P t) → P (.tuple is a))
    (aliasRef : ∀ n m a, P (.aliasRef n m a))
    (arrow : ∀ ps r a, (∀ t ∈ ps, P t) → P r → P (.arrow ps r a))
    (union : ∀ ms null a, (∀ t ∈ ms, P t) → P (.union ms null a)) (t : Ty μ) : P t := by
  refine Ty.rec (motive_1 := P) (motive_2 := fun ts => ∀ t ∈ ts, P t) top prim enumRef literal
    classRef list map (fun is a h => tuple is a h) aliasRef (fun ps r a hs h => arrow ps r a hs h)
    (fun ms null a h => union ms null a h) ?_ ?_ t
  · simp
  · intro u us hu hus t ht
    rcases List.mem_cons.1 ht with rfl | ht
    · exact hu
    · exact hus t ht

/-- Induction on the types directly below. -/
@[elab_as_elim]
theorem inductChildren {P : Ty μ → Prop} (step : ∀ t, (∀ u ∈ t.children, P u) → P t) (t : Ty μ) :
    P t := by
  have leaf (t : Ty μ) (h : t.children = []) : P t := step t fun u hu => by simp [h] at hu
  induction t using induct with
  | list i a ih => exact step _ fun u hu => by rwa [List.mem_singleton.1 hu]
  | map k v a ihk ihv =>
    refine step _ fun u hu => ?_
    rcases List.mem_cons.1 hu with rfl | hu
    · exact ihk
    · rwa [List.mem_singleton.1 hu]
  | tuple is a ih => exact step _ ih
  | arrow ps r a ih ihr =>
    refine step _ fun u hu => ?_
    rcases List.mem_append.1 hu with hu | hu
    · exact ih u hu
    · rwa [List.mem_singleton.1 hu]
  | union ms null a ih =>
    refine step _ fun u hu => ?_
    rcases List.mem_append.1 hu with hu | hu
    · exact ih u hu
    · obtain ⟨n, -, rfl⟩ := List.mem_map.1 hu
      exact leaf _ rfl
  | _ => exact leaf _ rfl

theorem mapAnns_eq_map (f : Ty μ → ν) (mode : Option Mode) (ts : List (Ty μ)) :
    mapAnns f mode ts = ts.map (mapAnn f mode) := by
  induction ts with
  | nil => rfl
  | cons t ts ih => rw [mapAnns, ih]; rfl

theorem unstreamAll_eq_map (back : Bool → μ → ν) (inUnion : Bool) (ts : List (Ty μ)) :
    unstreamAll back inUnion ts = ts.map (unstream back inUnion) := by
  induction ts with
  | nil => rfl
  | cons t ts ih => rw [unstreamAll, ih]; rfl

theorem streamAll_eq_map (inUnion : Bool) (ts : List (Ty Authored)) :
    streamAll inUnion ts = ts.map (stream inUnion) := by
  induction ts with
  | nil => rfl
  | cons t ts ih => rw [streamAll, ih]; rfl

theorem flattenAll_eq_flatMap (keep : μ → Bool) (ts : List (Ty μ)) :
    flattenAll keep ts = ts.flatMap (flatten keep) := by
  induction ts with
  | nil => rfl
  | cons t ts ih => rw [flattenAll, ih]; rfl

theorem nodesOf_eq_flatMap (ts : List (Ty μ)) : nodesOf ts = ts.flatMap nodes := by
  induction ts with
  | nil => rfl
  | cons t ts ih => rw [nodesOf, ih]; rfl

/-- The nodes of a type are its root and the nodes of the types directly below. -/
theorem nodes_eq_flatMap (t : Ty μ) : t.nodes = t :: t.children.flatMap nodes := by
  cases t with
  | list i a => simp [nodes, children]
  | map k v a => simp [nodes, children]
  | tuple is a => simp [nodes, children, nodesOf_eq_flatMap]
  | arrow ps r a => simp [nodes, children, nodesOf_eq_flatMap]
  | union ms null a =>
    cases null with
    | none => simp [nodes, children, allMembers, nullMember, nodesOf_eq_flatMap]
    | some n => simp [nodes, children, allMembers, nullMember, nodesOf_eq_flatMap]
  | _ => rfl

theorem mem_nodes_iff {t u : Ty μ} : u ∈ t.nodes ↔ u = t ∨ ∃ v ∈ t.children, u ∈ v.nodes := by
  rw [nodes_eq_flatMap, List.mem_cons, List.mem_flatMap]

theorem mem_nodes_of_child {t u v : Ty μ} (hv : v ∈ t.children) (hu : u ∈ v.nodes) :
    u ∈ t.nodes := mem_nodes_iff.2 (.inr ⟨v, hv, hu⟩)

theorem exists_mem_nodes_iff {P : Ty μ → Prop} {t : Ty μ} :
    (∃ u ∈ t.nodes, P u) ↔ P t ∨ ∃ v ∈ t.children, ∃ u ∈ v.nodes, P u := by
  constructor
  · rintro ⟨u, hu, h⟩
    rcases mem_nodes_iff.1 hu with rfl | ⟨v, hv, hu⟩
    · exact .inl h
    · exact .inr ⟨v, hv, u, hu, h⟩
  · rintro (h | ⟨v, hv, u, hu, h⟩)
    · exact ⟨t, mem_nodes_iff.2 (.inl rfl), h⟩
    · exact ⟨u, mem_nodes_of_child hv hu, h⟩

theorem forall_mem_nodes_iff {P : Ty μ → Prop} {t : Ty μ} :
    (∀ u ∈ t.nodes, P u) ↔ P t ∧ ∀ v ∈ t.children, ∀ u ∈ v.nodes, P u := by
  constructor
  · exact fun h => ⟨h t (mem_nodes_iff.2 (.inl rfl)), fun v hv u hu =>
      h u (mem_nodes_of_child hv hu)⟩
  · rintro ⟨h, hchildren⟩ u hu
    rcases mem_nodes_iff.1 hu with rfl | ⟨v, hv, hu⟩
    · exact h
    · exact hchildren v hv u hu

/-- The primitive types besides null are leaves of one form. -/
theorem stream_prim {p : Prim} (hp : p ≠ .null) (inUnion : Bool) (a : Authored) :
    (prim p a).stream inUnion = if a.flags.done then wholeOf inUnion (prim p a)
      else streamLeaf a (inUnion || a.flags.needed) (p != .string) (prim p) := by
  cases p <;> first | exact absurd rfl hp | rfl

theorem isOptional_optionalOf (t : Ty μ) (a : μ) : (optionalOf t a).isOptional = true := by
  unfold optionalOf
  split <;> rfl

theorem toNatives_eq_map [Metadata μ] (ts : List (Ty μ)) : toNatives ts = ts.map toNative := by
  induction ts with
  | nil => rfl
  | cons t ts ih => rw [toNatives, ih]; rfl

end ShapeSchema.Ty
