import ShapeSchema.Proofs.Ty.Union

/-!
# Names that types mention

A node refers to an enum, a class or an alias by name. The type of partially received values and the
type that it comes back to mention no names that the original does not mention
(`mentions_of_streamed`): streaming moves annotations and nulls around and switches modes, but never
makes up a reference.
-/

namespace ShapeSchema

/-- What a node refers to, its mode aside. -/
inductive Reference where
  | enumOf (name : String)
  | classOf (name : String)
  | aliasOf (name : String)
deriving DecidableEq

namespace Ty

variable {μ ν : Type}

/-- What the root refers to. -/
def reference? : Ty μ → Option Reference
  | enumRef n _ _ => some (.enumOf n)
  | classRef n _ _ _ => some (.classOf n)
  | aliasRef n _ _ => some (.aliasOf n)
  | _ => none

/-- What the nodes of a type refer to. -/
def references (t : Ty μ) : List Reference := t.nodes.filterMap reference?

/-- Some node of a type refers to something. -/
def Mentions (t : Ty μ) (r : Reference) : Prop := ∃ u ∈ t.nodes, u.reference? = some r

variable {r : Reference}

theorem mem_references {t : Ty μ} : r ∈ t.references ↔ t.Mentions r := List.mem_filterMap

/-! ## Forms -/

theorem mem_nodes (t : Ty μ) : t ∈ t.nodes := mem_nodes_iff.2 (.inl rfl)

/-- A type mentions what its root refers to and what the types directly below mention. -/
theorem mentions_iff (t : Ty μ) :
    t.Mentions r ↔ t.reference? = some r ∨ ∃ u ∈ t.children, u.Mentions r := by
  unfold Mentions
  exact exists_mem_nodes_iff

theorem mentions_of_children {t : Ty μ} (h : t.reference? = none) :
    t.Mentions r ↔ ∃ u ∈ t.children, u.Mentions r := by
  rw [mentions_iff, h]
  simp

theorem not_mentions_of_leaf {t : Ty μ} (h : t.reference? = none) (hc : t.children = []) :
    ¬ t.Mentions r := by
  rw [mentions_of_children h, hc]
  simp

theorem mentions_of_reference {t : Ty μ} {q : Reference} (h : t.reference? = some q)
    (hc : t.children = []) : t.Mentions r ↔ r = q := by
  rw [mentions_iff, h, hc]
  simp [eq_comm]

@[simp] theorem mentions_top (a : μ) : ¬ (top a).Mentions r := not_mentions_of_leaf rfl rfl

@[simp] theorem mentions_prim (p : Prim) (a : μ) : ¬ (prim p a).Mentions r :=
  not_mentions_of_leaf rfl rfl

@[simp] theorem mentions_literal (l : Literal) (a : μ) : ¬ (literal l a).Mentions r :=
  not_mentions_of_leaf rfl rfl

@[simp] theorem mentions_enumRef (n : String) (d : Bool) (a : μ) :
    (enumRef n d a).Mentions r ↔ r = .enumOf n := mentions_of_reference rfl rfl

@[simp] theorem mentions_classRef (n : String) (m : Mode) (d : Bool) (a : μ) :
    (classRef n m d a).Mentions r ↔ r = .classOf n := mentions_of_reference rfl rfl

@[simp] theorem mentions_aliasRef (n : String) (m : Mode) (a : μ) :
    (aliasRef n m a).Mentions r ↔ r = .aliasOf n := mentions_of_reference rfl rfl

@[simp] theorem mentions_list (i : Ty μ) (a : μ) : (list i a).Mentions r ↔ i.Mentions r := by
  rw [mentions_of_children rfl]
  show (∃ u ∈ [i], _) ↔ _
  simp

@[simp] theorem mentions_map (k v : Ty μ) (a : μ) :
    (map k v a).Mentions r ↔ k.Mentions r ∨ v.Mentions r := by
  rw [mentions_of_children rfl]
  show (∃ u ∈ [k, v], _) ↔ _
  simp

@[simp] theorem mentions_tuple (is : List (Ty μ)) (a : μ) :
    (tuple is a).Mentions r ↔ ∃ t ∈ is, t.Mentions r := mentions_of_children rfl

@[simp] theorem mentions_arrow (ps : List (Ty μ)) (t : Ty μ) (a : μ) :
    (arrow ps t a).Mentions r ↔ (∃ p ∈ ps, p.Mentions r) ∨ t.Mentions r := by
  rw [mentions_of_children rfl]
  show (∃ u ∈ ps ++ [t], _) ↔ _
  simp [or_and_right, exists_or]

@[simp] theorem mentions_union (ms : List (Ty μ)) (null : Option μ) (a : μ) :
    (union ms null a).Mentions r ↔ ∃ t ∈ ms, t.Mentions r := by
  rw [mentions_of_children rfl]
  show (∃ u ∈ ms ++ nullMember null, _) ↔ _
  simp [nullMember, or_and_right, exists_or]

/-! ## Walks -/

theorem mentions_withAnn (t : Ty μ) (a : μ) : (t.withAnn a).Mentions r ↔ t.Mentions r := by
  cases t <;> simp [withAnn]

theorem mentions_mapAnn (f : Ty μ → ν) (mode : Option Mode) (t : Ty μ) :
    (t.mapAnn f mode).Mentions r ↔ t.Mentions r := by
  induction t using induct with
  | top a => simp [mapAnn]
  | prim p a => simp [mapAnn]
  | enumRef n d a => simp [mapAnn]
  | literal l a => simp [mapAnn]
  | classRef n m d a => simp [mapAnn]
  | aliasRef n m a => simp [mapAnn]
  | list i a ih => simp [mapAnn, ih]
  | map k v a ihk ihv => simp [mapAnn, ihk, ihv]
  | tuple is a ih =>
    rw [mapAnn, mapAnns_eq_map, mentions_tuple, mentions_tuple]
    simp only [List.mem_map, exists_exists_and_eq_and]
    exact exists_congr fun t => and_congr_right fun ht => ih t ht
  | arrow ps t a ih iht =>
    rw [mapAnn, mapAnns_eq_map, mentions_arrow, mentions_arrow, iht]
    simp only [List.mem_map, exists_exists_and_eq_and]
    exact or_congr_left (exists_congr fun t => and_congr_right fun ht => ih t ht)
  | union ms null a ih =>
    rw [mapAnn, mapAnns_eq_map, mentions_union, mentions_union]
    simp only [List.mem_map, exists_exists_and_eq_and]
    exact exists_congr fun t => and_congr_right fun ht => ih t ht

theorem mentions_unstream (back : Bool → μ → ν) (t : Ty μ) (inUnion : Bool) :
    (t.unstream back inUnion).Mentions r ↔ t.Mentions r := by
  induction t using induct generalizing inUnion with
  | top a => simp [unstream]
  | prim p a => simp [unstream]
  | enumRef n d a => simp [unstream]
  | literal l a => simp [unstream]
  | classRef n m d a => simp [unstream]
  | aliasRef n m a => simp [unstream]
  | list i a ih => simp [unstream, ih]
  | map k v a ihk ihv => simp [unstream, ihk, ihv]
  | tuple is a ih =>
    rw [unstream, unstreamAll_eq_map, mentions_tuple, mentions_tuple]
    simp only [List.mem_map, exists_exists_and_eq_and]
    exact exists_congr fun t => and_congr_right fun ht => ih t ht false
  | arrow ps t a ih iht =>
    rw [unstream, unstreamAll_eq_map, mentions_arrow, mentions_arrow, iht]
    simp only [List.mem_map, exists_exists_and_eq_and]
    exact or_congr_left (exists_congr fun t => and_congr_right fun ht => ih t ht false)
  | union ms null a ih =>
    rw [unstream, unstreamAll_eq_map, mentions_union, mentions_union]
    simp only [List.mem_map, exists_exists_and_eq_and]
    exact exists_congr fun t => and_congr_right fun ht => ih t ht true

theorem mentions_optionalOf (t : Ty μ) (a : μ) : (optionalOf t a).Mentions r ↔ t.Mentions r := by
  unfold optionalOf
  split <;> simp

theorem mentions_optional (t : Ty Authored) : t.optional.Mentions r ↔ t.Mentions r :=
  mentions_optionalOf t {}

theorem mentions_withConstraints [Metadata μ] (t : Ty μ) (cs : List Constraint) :
    (t.withConstraints cs).Mentions r ↔ t.Mentions r := by
  unfold withConstraints
  split
  · exact Iff.rfl
  · exact mentions_withAnn t _

theorem mentions_unionOf {ts : List (Ty μ)} {a : μ} (h : (unionOf ts a).Mentions r) :
    ∃ t ∈ ts, t.Mentions r := by
  obtain ⟨t, ht, hr⟩ := (mentions_union _ _ _).1 h
  exact ⟨t, (List.mem_filter.1 ht).1, hr⟩

theorem mentions_whole (t : Ty Authored) : t.whole.Mentions r ↔ t.Mentions r := by
  unfold whole
  rw [mentions_withAnn, mentions_mapAnn]

theorem mentions_wholeOf (inUnion : Bool) (t : Ty Authored) :
    (wholeOf inUnion t).Mentions r ↔ t.Mentions r := by
  unfold wholeOf
  split
  · exact mentions_whole t
  · rw [mentions_optionalOf, mentions_whole]

theorem mentions_flatten [Metadata μ] {keep : μ → Bool} {t u : Ty μ} (hu : u ∈ flatten keep t)
    (h : u.Mentions r) : t.Mentions r :=
  forall_mem_flatten (P := fun u => u.Mentions r → t.Mentions r)
    (fun v _ hv w hw hr => hv ((mentions_iff v).2 (.inr ⟨w, hw, hr⟩))) id hu h

/-! ## Streaming -/

theorem mentions_streamLeaf {a : Authored} {bare whole : Bool} {build : Streamed → Ty Streamed}
    (h : (streamLeaf a bare whole build).Mentions r) : ∃ b, (build b).Mentions r := by
  unfold streamLeaf at h
  split at h
  · exact ⟨_, h⟩
  · exact ⟨_, (mentions_optionalOf _ _).1 h⟩

/-- A subtree that is done comes out whole; any other one as the rest of the equation says. -/
theorem mentions_of_whole_or {t : Ty Authored} {inUnion done : Bool} {u : Ty Streamed}
    (h : (if done then wholeOf inUnion t else u).Mentions r) (hu : u.Mentions r → t.Mentions r) :
    t.Mentions r := by
  split at h
  · exact (mentions_wholeOf inUnion t).1 h
  · exact hu h

theorem mentions_of_leaf {t : Ty Authored} {a : Authored} {inUnion bare whole done : Bool}
    {build : Streamed → Ty Streamed}
    (h : (if done then wholeOf inUnion t else streamLeaf a bare whole build).Mentions r)
    (hbuild : ∀ b, (build b).Mentions r → t.Mentions r) : t.Mentions r := by
  refine mentions_of_whole_or h fun h => ?_
  obtain ⟨b, hb⟩ := mentions_streamLeaf h
  exact hbuild b hb

theorem mentions_of_stream {t : Ty Authored} {inUnion : Bool}
    (h : (t.stream inUnion).Mentions r) : t.Mentions r := by
  induction t using induct generalizing inUnion with
  | top a =>
    rw [stream] at h
    exact mentions_of_leaf h fun b hb => absurd hb (mentions_top b)
  | prim p a =>
    by_cases hp : p = .null
    · subst hp
      rw [stream] at h
      exact mentions_of_whole_or h fun h => absurd h (mentions_prim .null _)
    · rw [stream_prim hp] at h
      exact mentions_of_leaf h fun b hb => absurd hb (mentions_prim p b)
  | enumRef n d a =>
    rw [stream] at h
    refine mentions_of_leaf h fun b hb => ?_
    rwa [mentions_enumRef] at hb ⊢
  | literal l a =>
    rw [stream] at h
    exact mentions_of_leaf h fun b hb => absurd hb (mentions_literal l b)
  | classRef n m d a =>
    rw [stream] at h
    refine mentions_of_leaf h fun b hb => ?_
    rwa [mentions_classRef] at hb ⊢
  | aliasRef n m a =>
    rw [stream] at h
    refine mentions_of_leaf h fun b hb => ?_
    rwa [mentions_aliasRef] at hb ⊢
  | list i a ih =>
    rw [stream] at h
    refine mentions_of_whole_or h fun h => ?_
    rw [mentions_list] at h ⊢
    exact ih h
  | map k v a ihk ihv =>
    rw [stream] at h
    refine mentions_of_whole_or h fun h => ?_
    rw [mentions_map] at h ⊢
    exact h.imp ihk ihv
  | tuple is a ih =>
    rw [stream] at h
    refine mentions_of_whole_or h fun h => ?_
    rw [streamAll_eq_map, mentions_tuple] at h
    rw [mentions_tuple]
    obtain ⟨u, hu, h⟩ := h
    obtain ⟨t, ht, rfl⟩ := List.mem_map.1 hu
    exact ⟨t, ht, ih t ht h⟩
  | arrow ps t a ih iht =>
    rw [stream] at h
    refine mentions_of_whole_or h fun h => ?_
    rw [streamAll_eq_map, mentions_arrow] at h
    rw [mentions_arrow]
    rcases h with ⟨u, hu, h⟩ | h
    · obtain ⟨p, hp, rfl⟩ := List.mem_map.1 hu
      exact .inl ⟨p, hp, ih p hp h⟩
    · exact .inr (iht h)
  | union ms null a ih =>
    rw [stream] at h
    refine mentions_of_whole_or h fun h => ?_
    rw [mentions_union] at h ⊢
    obtain ⟨u, hu, h⟩ := h
    have hflat := (List.mem_filter.1 ((dedupe_sublist _).subset hu)).1
    rw [flattenAll_eq_flatMap, streamAll_eq_map, List.mem_flatMap] at hflat
    obtain ⟨w, hw, hflat⟩ := hflat
    obtain ⟨m, hm, rfl⟩ := List.mem_map.1 hw
    exact ⟨m, hm, ih m hm (mentions_flatten hflat h)⟩

/-- Streaming a type and turning back adds no references. -/
theorem mentions_of_streamed {t : Ty Authored} (h : t.toStreamed.toAuthored.Mentions r) :
    t.Mentions r := mentions_of_stream ((mentions_unstream backAnn _ false).1 h)

end Ty

end ShapeSchema
