import ShapeSchema.Proofs.Decimal.Whole
import ShapeSchema.Proofs.Native.Canonical
import ShapeSchema.Proofs.Ty.Induction

/-!
# Canonical text tells the type

`Ty.same_iff` is the main result: types compare as `same` exactly when they are equal, for every
kind of annotation whose own text tells it apart. Without the annotations the text tells the type
with its annotations erased, and no more (`Ty.sameShape_iff`). Both come from one walk, in which a
reading of the annotations stands for what the text tells of them (`Metadata.Tells`): a node is an
object with distinct members, so its text tells its form, the reading of its annotation and its
parts (`node_injective`), and the types below follow by induction. `Ty.decided_by_text` has both for
all three kinds of annotation.
-/

namespace ShapeSchema

open Native (Clear)

/-! ## Constraints and annotations -/

theorem Constraint.clear_members (full : Bool) (c : Constraint) :
    ∀ p ∈ [("level", Native.text c.level.text)]
      ++ (c.label.map fun l => ("label", Native.text l)).toList
      ++ [("expression", Native.text c.expression)], p.2.Clear full := by
  intro p hp
  obtain ⟨level, label, expression⟩ := c
  cases label <;>
  · simp at hp
    rcases hp with rfl | rfl | rfl <;> exact Native.clear_text full _

theorem Constraint.clear_toNative (full : Bool) (c : Constraint) : c.toNative.Clear full :=
  Native.clear_object (c.clear_members full)

theorem Level.text_injective {a b : Level} (h : a.text = b.text) : a = b := by
  cases a <;> cases b <;> first | rfl | exact absurd h (by decide)

theorem Constraint.eq_of_canonical {full : Bool} {c d : Constraint}
    (h : c.toNative.canonical full = d.toNative.canonical full) : c = d := by
  have key := fun k (hk : full = true ∨ k ≠ "meta") => Native.find?_canonical_eq_of_object
    (c.clear_members full) (d.clear_members full)
    (by obtain ⟨level, label, expression⟩ := c; cases label <;> simp [Entries.keys]) h k hk
  have hl := key "level" (.inr (by decide))
  have hb := key "label" (.inr (by decide))
  have he := key "expression" (.inr (by decide))
  obtain ⟨l, b, e⟩ := c
  obtain ⟨l', b', e'⟩ := d
  have hl' : l = l' := by
    cases b <;> cases b' <;>
    · simp [Entries.find?] at hl
      exact Level.text_injective (Native.text_eq_of_canonical hl)
  have he' : e = e' := by
    cases b <;> cases b' <;>
    · simp [Entries.find?] at he
      exact Native.text_eq_of_canonical he
  have hb' : b = b' := by
    cases b <;> cases b' <;> simp [Entries.find?] at hb
    · rfl
    · rw [Native.text_eq_of_canonical hb]
  rw [hl', he', hb']

theorem clear_constraints (full : Bool) (cs : List Constraint) :
    (constraintsToNative cs).Clear full := by
  refine Native.clear_array fun v hv => ?_
  obtain ⟨c, -, rfl⟩ := List.mem_map.1 hv
  exact c.clear_toNative full

theorem constraints_eq_of_canonical {full : Bool} {cs ds : List Constraint}
    (h : (constraintsToNative cs).canonical full = (constraintsToNative ds).canonical full) :
    cs = ds := by
  have clear : ∀ es : List Constraint, ∀ v ∈ es.map Constraint.toNative, v.Clear full := by
    intro es v hv
    obtain ⟨c, -, rfl⟩ := List.mem_map.1 hv
    exact c.clear_toNative full
  have hm := Native.map_canonical_eq_of_array (clear cs) (clear ds) h
  rw [List.map_map, List.map_map] at hm
  exact List.map_injective_iff.2 (fun c d => Constraint.eq_of_canonical) hm

/-- Annotations whose canonical text tells them apart. -/
structure Metadata.Legible (μ : Type) [Metadata μ] : Prop where
  clear : ∀ a : μ, (Metadata.toNative a).Clear true
  injective : ∀ a b : μ,
    (Metadata.toNative a).canonical true = (Metadata.toNative b).canonical true → a = b

/-- A type's text tells at least `k` of its annotations: all that their own texts tell if they are
written, and otherwise what is common to all. -/
structure Metadata.Tells {μ κ : Type} [Metadata μ] (full : Bool) (k : μ → κ) : Prop where
  clear : ∀ a : μ, (Metadata.toNative a).Clear full
  told : ∀ a b : μ, (full = true →
    (Metadata.toNative a).canonical full = (Metadata.toNative b).canonical full) → k a = k b

/-- Annotations that are not written are as good as erased. -/
theorem Metadata.tells_nothing {μ : Type} [Metadata μ]
    (h : ∀ a : μ, (Metadata.toNative a).Clear false) :
    Metadata.Tells false fun _ : μ => () where
  clear := h
  told _ _ _ := rfl

theorem Metadata.Legible.tells {μ : Type} [Metadata μ] (hl : Metadata.Legible μ) :
    Metadata.Tells true fun a : μ => a where
  clear := hl.clear
  told a b h := hl.injective a b (h rfl)

theorem flag_eq_of_canonical {full b c : Bool}
    (h : (Native.bool b).canonical full = (Native.bool c).canonical full) : b = c := by
  cases b <;> cases c <;> first
    | rfl
    | exact absurd h (by simp [Native.canonical, Native.canonical?])

/-- The plain data of an annotation with streaming flags: its constraints and the flags by name. -/
def annotationMembers (cs : List Constraint) (flags : List (String × Bool)) :
    List (String × Native) :=
  [("constraints", constraintsToNative cs),
    ("streamingBehavior", .object (flags.map fun f => (f.1, .bool f.2)))]

theorem clear_flags (full : Bool) (flags : List (String × Bool)) :
    ∀ p ∈ flags.map fun f => (f.1, Native.bool f.2), p.2.Clear full := by
  intro p hp
  obtain ⟨f, -, rfl⟩ := List.mem_map.1 hp
  exact Native.clear_bool full f.2

theorem clear_annotationMembers (full : Bool) (cs : List Constraint)
    (flags : List (String × Bool)) : ∀ p ∈ annotationMembers cs flags, p.2.Clear full := by
  simp [annotationMembers, clear_constraints, Native.clear_object (clear_flags full flags)]

theorem annotation_eq_of_canonical {cs ds : List Constraint} (fs gs : List (String × Bool))
    (nd : (Entries.keys fs).Nodup)
    (h : (Native.object (annotationMembers cs fs)).canonical true
      = (Native.object (annotationMembers ds gs)).canonical true) :
    cs = ds ∧ ∀ key, Entries.find? fs key = Entries.find? gs key := by
  have members := Native.find?_canonical_eq_of_object (clear_annotationMembers true cs fs)
    (clear_annotationMembers true ds gs) (by simp [Entries.keys, annotationMembers]) h
  have hc := members "constraints" (.inl rfl)
  have hs := members "streamingBehavior" (.inl rfl)
  simp [Entries.find?, annotationMembers] at hc hs
  refine ⟨constraints_eq_of_canonical hc, fun key => ?_⟩
  have hf := Native.find?_canonical_eq_of_object (clear_flags true fs) (clear_flags true gs)
    (by rwa [Entries.keys_map]) hs key (.inl rfl)
  rw [Entries.find?_map, Entries.find?_map, Option.map_map, Option.map_map] at hf
  exact Option.map_injective (fun b c => flag_eq_of_canonical) hf

theorem Authored.clear_toNative (full : Bool) (a : Authored) :
    (Metadata.toNative a).Clear full :=
  Native.clear_object (clear_annotationMembers full a.constraints
    [("needed", a.flags.needed), ("done", a.flags.done), ("state", a.flags.state)])

theorem Streamed.clear_toNative (full : Bool) (a : Streamed) :
    (Metadata.toNative a).Clear full :=
  Native.clear_object (clear_annotationMembers full a.constraints
    [("done", a.done), ("state", a.state)])

theorem Settled.clear_members (full : Bool) (a : Settled) :
    ∀ p ∈ [("constraints", constraintsToNative a.constraints)], p.2.Clear full := by
  simp [clear_constraints]

theorem Settled.clear_toNative (full : Bool) (a : Settled) : (Metadata.toNative a).Clear full :=
  Native.clear_object (a.clear_members full)

theorem Authored.legible : Metadata.Legible Authored where
  clear := clear_toNative true
  injective := by
    rintro ⟨cs, n, d, t⟩ ⟨cs', n', d', t'⟩ h
    obtain ⟨rfl, hf⟩ := annotation_eq_of_canonical [("needed", n), ("done", d), ("state", t)]
      [("needed", n'), ("done", d'), ("state", t')] (by simp [Entries.keys]) h
    obtain rfl : n = n' := Option.some.inj (hf "needed")
    obtain rfl : d = d' := Option.some.inj (hf "done")
    obtain rfl : t = t' := Option.some.inj (hf "state")
    rfl

theorem Streamed.legible : Metadata.Legible Streamed where
  clear := clear_toNative true
  injective := by
    rintro ⟨cs, d, t⟩ ⟨cs', d', t'⟩ h
    obtain ⟨rfl, hf⟩ := annotation_eq_of_canonical [("done", d), ("state", t)]
      [("done", d'), ("state", t')] (by simp [Entries.keys]) h
    obtain rfl : d = d' := Option.some.inj (hf "done")
    obtain rfl : t = t' := Option.some.inj (hf "state")
    rfl

theorem Settled.legible : Metadata.Legible Settled where
  clear := clear_toNative true
  injective a b h := by
    have hc := Native.find?_canonical_eq_of_object (a.clear_members true) (b.clear_members true)
      (by simp [Entries.keys]) h "constraints" (.inl rfl)
    simp [Entries.find?] at hc
    obtain ⟨cs⟩ := a
    obtain ⟨ds⟩ := b
    exact congrArg Settled.mk (constraints_eq_of_canonical hc)

/-! ## Literals -/

namespace Literal

/-- A literal's kind and value as plain data. -/
def members : Literal → List (String × Native)
  | .string s => [("kind", .text "string"), ("value", .text s)]
  | .int n => [("kind", .text "int"), ("value", .big n)]
  | .bool b => [("kind", .text "bool"), ("value", .bool b)]

theorem toNative_eq_object (l : Literal) : l.toNative = .object l.members := by
  cases l <;> rfl

theorem clear_members (full : Bool) (l : Literal) : ∀ p ∈ l.members, p.2.Clear full := by
  cases l <;> simp [members, Native.clear_text, Native.clear_big, Native.clear_bool]

theorem clear_toNative (full : Bool) (l : Literal) : l.toNative.Clear full := by
  rw [toNative_eq_object]
  exact Native.clear_object (l.clear_members full)

theorem eq_of_canonical {full : Bool} {l m : Literal}
    (h : l.toNative.canonical full = m.toNative.canonical full) : l = m := by
  rw [toNative_eq_object, toNative_eq_object] at h
  have key := Native.find?_canonical_eq_of_object (l.clear_members full) (m.clear_members full)
    (by cases l <;> simp [members, Entries.keys]) h
  have hk := key "kind" (.inr (by decide))
  have hv := key "value" (.inr (by decide))
  cases l <;> cases m <;> simp [members, Entries.find?] at hk hv
  · rw [Native.text_eq_of_canonical hv]
  · exact absurd (Native.text_eq_of_canonical hk) (by decide)
  · exact absurd (Native.text_eq_of_canonical hk) (by decide)
  · exact absurd (Native.text_eq_of_canonical hk) (by decide)
  · rw [Native.big_eq_of_canonical hv]
  · exact absurd (Native.text_eq_of_canonical hk) (by decide)
  · exact absurd (Native.text_eq_of_canonical hk) (by decide)
  · exact absurd (Native.text_eq_of_canonical hk) (by decide)
  · rw [flag_eq_of_canonical hv]

end Literal

/-! ## Types -/

theorem Mode.text_injective {m n : Mode} (h : m.text = n.text) : m = n := by
  cases m <;> cases n <;> first | rfl | exact absurd h (by decide)

theorem Prim.text_injective {p q : Prim} (h : p.text = q.text) : p = q := by
  cases p <;> cases q <;> first
    | rfl
    | exact absurd h (by decide)
    | (rename_i k; cases k <;> exact absurd h (by decide))
    | (rename_i k l; cases k <;> cases l <;> first | rfl | exact absurd h (by decide))

namespace Ty

variable {μ κ : Type}

/-- The type with a reading of its annotations in their place. -/
def read (k : μ → κ) (t : Ty μ) : Ty κ := t.mapAnn (fun n => k n.ann) none

/-- The type without its annotations. -/
def erased (t : Ty μ) : Ty Unit := t.read fun _ => ()

theorem read_self (t : Ty μ) : t.read (fun a => a) = t := by
  have all {ts : List (Ty μ)} (h : ∀ t ∈ ts, t.mapAnn ann none = t) :
      mapAnns ann none ts = ts := by
    rw [mapAnns_eq_map, List.map_congr_left h]
    exact List.map_id' ts
  show t.mapAnn ann none = t
  induction t using induct with
  | list i a hi => rw [mapAnn, hi]; rfl
  | map key v a hkey hv => rw [mapAnn, hkey, hv]; rfl
  | tuple is a h => rw [mapAnn, all h]; rfl
  | arrow ps r a h hr => rw [mapAnn, all h, hr]; rfl
  | union ms null a h =>
    rw [mapAnn, all h]
    exact congrArg (union ms · a) (Option.map_id' (x := null))
  | _ => rfl

variable [Metadata μ] {full : Bool} {k : μ → κ}

/-- The members and the null of a union as plain data. -/
def unionParts (ms : List (Ty μ)) (null : Option μ) : List (String × Native) :=
  ("members", .array (ms.map toNative))
    :: (null.map fun n => ("nullType", toNative (.prim .null n))).toList

/-- The parts of a type as plain data, its form and annotation aside. -/
def parts : Ty μ → List (String × Native)
  | top _ => []
  | prim p _ => [("value", .text p.text)]
  | enumRef n d _ => [("name", .text n), ("dynamic", .bool d)]
  | literal l _ => [("value", l.toNative)]
  | classRef n m d _ => [("name", .text n), ("mode", .text m.text), ("dynamic", .bool d)]
  | list i _ => [("item", toNative i)]
  | map key v _ => [("key", toNative key), ("value", toNative v)]
  | tuple is _ => [("items", .array (is.map toNative))]
  | aliasRef n m _ => [("name", .text n), ("mode", .text m.text)]
  | arrow ps r _ => [("params", .array (ps.map toNative)), ("returns", toNative r)]
  | union ms null _ => [("union", .object (unionParts ms null))]

theorem toNative_eq_node (t : Ty μ) : t.toNative = node t.form t.parts t.ann := by
  cases t with
  | tuple is a => rw [toNative, toNatives_eq_map]; rfl
  | arrow ps r a => rw [toNative, toNatives_eq_map]; rfl
  | union ms null a => cases null <;> rw [toNative, toNatives_eq_map] <;> rfl
  | _ => rw [toNative]; rfl

theorem clear_node (hk : Metadata.Tells full k) {form : String} {ps : List (String × Native)}
    (h : ∀ p ∈ ps, p.2.Clear full) (a : μ) : (node form ps a).Clear full := by
  refine Native.clear_object fun p hp => ?_
  simp only [List.cons_append, List.mem_cons, List.mem_append, List.not_mem_nil, or_false] at hp
  rcases hp with rfl | hp | rfl
  · exact Native.clear_text full form
  · exact h p hp
  · exact hk.clear a

theorem nodup_node (t : Ty μ) : ("tag" :: Entries.keys t.parts ++ ["meta"]).Nodup := by
  cases t <;> simp [parts, Entries.keys]

/-- The text of a node tells its form, the reading of its annotation and the texts of its parts. -/
theorem node_injective (hk : Metadata.Tells full k) {t u : Ty μ}
    (ht : ∀ p ∈ t.parts, p.2.Clear full) (hu : ∀ p ∈ u.parts, p.2.Clear full)
    (h : t.toNative.canonical full = u.toNative.canonical full) :
    t.form = u.form ∧ k t.ann = k u.ann ∧ ∀ key, key ≠ "tag" → key ≠ "meta" →
      (Entries.find? t.parts key).map (·.canonical full)
        = (Entries.find? u.parts key).map (·.canonical full) := by
  have clear : ∀ v : Ty μ, (∀ p ∈ v.parts, p.2.Clear full) →
      ∀ p ∈ ("tag", Native.text v.form) :: v.parts ++ [("meta", Metadata.toNative v.ann)],
        p.2.Clear full := by
    intro v hv p hp
    simp only [List.cons_append, List.mem_cons, List.mem_append, List.not_mem_nil, or_false] at hp
    rcases hp with rfl | hp | rfl
    · exact Native.clear_text full _
    · exact hv p hp
    · exact hk.clear _
  have nd : ∀ v : Ty μ, (Entries.keys (("tag", Native.text v.form) :: v.parts
      ++ [("meta", Metadata.toNative v.ann)])).Nodup := by
    intro v
    simpa [Entries.keys] using v.nodup_node
  rw [toNative_eq_node, toNative_eq_node] at h
  have key := Native.find?_canonical_eq_of_object (clear t ht) (clear u hu) (nd t) h
  have tag : ∀ v : Ty μ, Entries.find? (("tag", Native.text v.form) :: v.parts
      ++ [("meta", Metadata.toNative v.ann)]) "tag" = some (Native.text v.form) :=
    fun v => Entries.find?_eq_some_of_mem (nd v) (by simp)
  have annot : ∀ v : Ty μ, Entries.find? (("tag", Native.text v.form) :: v.parts
      ++ [("meta", Metadata.toNative v.ann)]) "meta" = some (Metadata.toNative v.ann) :=
    fun v => Entries.find?_eq_some_of_mem (nd v) (by simp)
  refine ⟨?_, hk.told _ _ fun hfull => ?_, fun name h1 h2 => ?_⟩
  · have := key "tag" (.inr (by decide))
    rw [tag, tag] at this
    exact Native.text_eq_of_canonical (Option.some.inj this)
  · have := key "meta" (.inl hfull)
    rw [annot, annot] at this
    exact Option.some.inj this
  · have part : ∀ v : Ty μ, Entries.find? (("tag", Native.text v.form) :: v.parts
        ++ [("meta", Metadata.toNative v.ann)]) name = Entries.find? v.parts name := by
      intro v
      have ndp : (Entries.keys v.parts).Nodup :=
        ((List.nodup_cons.1 v.nodup_node).2).sublist (List.sublist_append_left _ _)
      apply Option.ext
      intro w
      rw [Entries.find?_eq_some_iff (nd v), Entries.find?_eq_some_iff ndp]
      simp [h1, h2]
    rw [← part t, ← part u]
    exact key name (.inr h2)

theorem clear_parts (hk : Metadata.Tells full k) (t : Ty μ) :
    ∀ p ∈ t.parts, p.2.Clear full := by
  have whole : ∀ t : Ty μ, (∀ p ∈ t.parts, p.2.Clear full) → t.toNative.Clear full := by
    intro t h
    rw [toNative_eq_node]
    exact clear_node hk h t.ann
  have array : ∀ ts : List (Ty μ), (∀ t ∈ ts, ∀ p ∈ t.parts, p.2.Clear full) →
      (Native.array (ts.map toNative)).Clear full := by
    intro ts h
    refine Native.clear_array fun v hv => ?_
    obtain ⟨t, ht, rfl⟩ := List.mem_map.1 hv
    exact whole t (h t ht)
  induction t using induct with
  | top a => simp [parts]
  | prim p a => simp [parts, Native.clear_text]
  | enumRef n d a => simp [parts, Native.clear_text, Native.clear_bool]
  | literal l a => simp [parts, Literal.clear_toNative]
  | classRef n m d a => simp [parts, Native.clear_text, Native.clear_bool]
  | list i a hi => simpa [parts] using whole i hi
  | map key v a hkey hv => simpa [parts] using ⟨whole key hkey, whole v hv⟩
  | tuple is a h => simpa [parts] using array is h
  | aliasRef n m a => simp [parts, Native.clear_text]
  | arrow ps r a h hr => simpa [parts] using ⟨array ps h, whole r hr⟩
  | union ms null a h =>
    intro p hp
    rw [List.mem_singleton.1 hp]
    refine Native.clear_object fun q hq => ?_
    rcases List.mem_cons.1 hq with rfl | hq
    · exact array ms h
    · cases null with
      | none => simp at hq
      | some n =>
        rw [List.mem_singleton.1 hq]
        exact whole (.prim .null n) (by simp [parts, Native.clear_text])

theorem clear_toNative (hk : Metadata.Tells full k) (t : Ty μ) : t.toNative.Clear full := by
  rw [toNative_eq_node]
  exact clear_node hk (clear_parts hk t) t.ann

theorem read_all_of_canonical (hk : Metadata.Tells full k) {ts us : List (Ty μ)}
    (ih : ∀ t ∈ ts, ∀ u : Ty μ, t.canonical full = u.canonical full → t.read k = u.read k)
    (h : (Native.array (ts.map toNative)).canonical full
      = (Native.array (us.map toNative)).canonical full) :
    mapAnns (fun n => k n.ann) none ts = mapAnns (fun n => k n.ann) none us := by
  have clear : ∀ ts : List (Ty μ), ∀ v ∈ ts.map toNative, v.Clear full := by
    intro ts v hv
    obtain ⟨t, -, rfl⟩ := List.mem_map.1 hv
    exact clear_toNative hk t
  have hm := Native.map_canonical_eq_of_array (clear ts) (clear us) h
  rw [List.map_map, List.map_map] at hm
  clear h
  induction ts generalizing us with
  | nil => rw [List.map_eq_nil_iff.1 hm.symm]
  | cons t ts ih' =>
    cases us with
    | nil => cases hm
    | cons u us =>
      obtain ⟨h1, h2⟩ := List.cons.inj hm
      have htu : t.read k = u.read k := ih t List.mem_cons_self u h1
      exact congrArg₂ List.cons htu (ih' (fun t ht => ih t (List.mem_cons_of_mem _ ht)) h2)

theorem clear_unionParts (hk : Metadata.Tells full k) (ms : List (Ty μ)) (null : Option μ) :
    ∀ p ∈ unionParts ms null, p.2.Clear full := by
  intro p hp
  rcases List.mem_cons.1 hp with rfl | hp
  · refine Native.clear_array fun v hv => ?_
    obtain ⟨t, -, rfl⟩ := List.mem_map.1 hv
    exact clear_toNative hk t
  · cases null with
    | none => simp at hp
    | some n =>
      rw [List.mem_singleton.1 hp]
      exact clear_toNative hk _

theorem unionParts_injective (hk : Metadata.Tells full k) {ms ns : List (Ty μ)} {m n : Option μ}
    (h : (Native.object (unionParts ms m)).canonical full
      = (Native.object (unionParts ns n)).canonical full) :
    (Native.array (ms.map toNative)).canonical full
      = (Native.array (ns.map toNative)).canonical full ∧ m.map k = n.map k := by
  have key := Native.find?_canonical_eq_of_object (clear_unionParts hk ms m)
    (clear_unionParts hk ns n) (by cases m <;> simp [unionParts, Entries.keys]) h
  have hmembers := key "members" (.inr (by decide))
  have hnull := key "nullType" (.inr (by decide))
  cases m with
  | none =>
    cases n with
    | none =>
      simp [unionParts, Entries.find?] at hmembers
      exact ⟨hmembers, rfl⟩
    | some n => simp [unionParts, Entries.find?] at hnull
  | some m =>
    cases n with
    | none => simp [unionParts, Entries.find?] at hnull
    | some n =>
      simp [unionParts, Entries.find?] at hmembers hnull
      obtain ⟨-, ha, -⟩ := node_injective hk (clear_parts hk _) (clear_parts hk _) hnull
      exact ⟨hmembers, congrArg some ha⟩

/-- Types of one canonical text are equal as far as the text tells their annotations. -/
theorem read_eq_of_canonical (hk : Metadata.Tells full k) (t : Ty μ) :
    ∀ u : Ty μ, t.canonical full = u.canonical full → t.read k = u.read k := by
  have node : ∀ t u : Ty μ, t.canonical full = u.canonical full → _ := fun t u =>
    node_injective hk (clear_parts hk t) (clear_parts hk u)
  induction t using induct with
  | top a =>
    intro u h
    obtain ⟨hf, ha, hp⟩ := node _ _ h
    cases u with
    | top b => exact congrArg top ha
    | _ => simp [form] at hf
  | prim p a =>
    intro u h
    obtain ⟨hf, ha, hp⟩ := node _ _ h
    cases u with
    | prim q b =>
      have hv := hp "value" (by decide) (by decide)
      simp [parts, Entries.find?] at hv
      rw [Prim.text_injective (Native.text_eq_of_canonical hv)]
      exact congrArg (Ty.prim q) ha
    | _ => simp [form] at hf
  | enumRef n d a =>
    intro u h
    obtain ⟨hf, ha, hp⟩ := node _ _ h
    cases u with
    | enumRef m e b =>
      have hn := hp "name" (by decide) (by decide)
      have hd := hp "dynamic" (by decide) (by decide)
      simp [parts, Entries.find?] at hn hd
      rw [Native.text_eq_of_canonical hn, flag_eq_of_canonical hd]
      exact congrArg (Ty.enumRef m e) ha
    | _ => simp [form] at hf
  | literal l a =>
    intro u h
    obtain ⟨hf, ha, hp⟩ := node _ _ h
    cases u with
    | literal m b =>
      have hv := hp "value" (by decide) (by decide)
      simp [parts, Entries.find?] at hv
      rw [Literal.eq_of_canonical hv]
      exact congrArg (Ty.literal m) ha
    | _ => simp [form] at hf
  | classRef n m d a =>
    intro u h
    obtain ⟨hf, ha, hp⟩ := node _ _ h
    cases u with
    | classRef n' m' d' b =>
      have hn := hp "name" (by decide) (by decide)
      have hm := hp "mode" (by decide) (by decide)
      have hd := hp "dynamic" (by decide) (by decide)
      simp [parts, Entries.find?] at hn hm hd
      rw [Native.text_eq_of_canonical hn, Mode.text_injective (Native.text_eq_of_canonical hm),
        flag_eq_of_canonical hd]
      exact congrArg (Ty.classRef n' m' d') ha
    | _ => simp [form] at hf
  | list i a hi =>
    intro u h
    obtain ⟨hf, ha, hp⟩ := node _ _ h
    cases u with
    | list j b =>
      have hij := hp "item" (by decide) (by decide)
      simp [parts, Entries.find?] at hij
      exact congrArg₂ Ty.list (hi j hij) ha
    | _ => simp [form] at hf
  | map key v a hkey hv =>
    intro u h
    obtain ⟨hf, ha, hp⟩ := node _ _ h
    cases u with
    | map l w b =>
      have hkl := hp "key" (by decide) (by decide)
      have hvw := hp "value" (by decide) (by decide)
      simp [parts, Entries.find?] at hkl hvw
      show map (key.read k) (v.read k) (k a) = map (l.read k) (w.read k) (k b)
      rw [hkey l hkl, hv w hvw]
      exact congrArg (map (l.read k) (w.read k)) ha
    | _ => simp [form] at hf
  | tuple is a his =>
    intro u h
    obtain ⟨hf, ha, hp⟩ := node _ _ h
    cases u with
    | tuple js b =>
      have hij := hp "items" (by decide) (by decide)
      simp [parts, Entries.find?] at hij
      exact congrArg₂ Ty.tuple (read_all_of_canonical hk his hij) ha
    | _ => simp [form] at hf
  | aliasRef n m a =>
    intro u h
    obtain ⟨hf, ha, hp⟩ := node _ _ h
    cases u with
    | aliasRef n' m' b =>
      have hn := hp "name" (by decide) (by decide)
      have hm := hp "mode" (by decide) (by decide)
      simp [parts, Entries.find?] at hn hm
      rw [Native.text_eq_of_canonical hn, Mode.text_injective (Native.text_eq_of_canonical hm)]
      exact congrArg (Ty.aliasRef n' m') ha
    | _ => simp [form] at hf
  | arrow ps r a hps hr =>
    intro u h
    obtain ⟨hf, ha, hp⟩ := node _ _ h
    cases u with
    | arrow qs s b =>
      have hpq := hp "params" (by decide) (by decide)
      have hrs := hp "returns" (by decide) (by decide)
      simp [parts, Entries.find?] at hpq hrs
      show arrow (mapAnns (fun n => k n.ann) none ps) (r.read k) (k a)
        = arrow (mapAnns (fun n => k n.ann) none qs) (s.read k) (k b)
      rw [read_all_of_canonical hk hps hpq, hr s hrs]
      exact congrArg (arrow _ (s.read k)) ha
    | _ => simp [form] at hf
  | union ms null a hms =>
    intro u h
    obtain ⟨hf, ha, hp⟩ := node _ _ h
    cases u with
    | union ns null' b =>
      have hu := hp "union" (by decide) (by decide)
      simp [parts, Entries.find?] at hu
      obtain ⟨hms', hnull⟩ := unionParts_injective hk hu
      show union (mapAnns (fun n => k n.ann) none ms) (null.map k) (k a)
        = union (mapAnns (fun n => k n.ann) none ns) (null'.map k) (k b)
      rw [read_all_of_canonical hk hms hms', hnull]
      exact congrArg (union _ (null'.map k)) ha
    | _ => simp [form] at hf

/-- Types of one canonical text are equal. -/
theorem eq_of_canonical (hl : Metadata.Legible μ) {t u : Ty μ}
    (h : t.canonical true = u.canonical true) : t = u := by
  have hread := read_eq_of_canonical hl.tells t u h
  rwa [read_self, read_self] at hread

/-- Types are equal when their texts are. -/
theorem same_iff (hl : Metadata.Legible μ) {t u : Ty μ} : t.same u = true ↔ t = u := by
  unfold same
  rw [beq_iff_eq]
  constructor
  · exact eq_of_canonical hl
  · rintro rfl
    rfl

/-! ## Text without annotations -/

/-- An annotation that says nothing. -/
instance : Metadata Unit where
  constraints _ := []
  withConstraints _ _ := ()
  state _ := false
  toNative _ := .null

/-- A node's annotation is left out of its text without annotations. -/
theorem canonical?_node (form : String) (ps : List (String × Native)) (a : μ) :
    (node form ps a).canonical? false
      = (Native.object (("tag", .text form) :: ps)).canonical? false := by
  have hdrop (ms : List (String × Native)) : Native.canonicalMembers false
      (ms ++ [("meta", Metadata.toNative a)]) = Native.canonicalMembers false ms := by
    induction ms with
    | nil =>
      simp only [List.nil_append, Native.canonicalMembers]
      cases (Metadata.toNative a).canonical? false <;> rfl
    | cons p ms ih =>
      obtain ⟨key, v⟩ := p
      rw [List.cons_append, Native.canonicalMembers, Native.canonicalMembers, ih]
  unfold node
  rw [Native.canonical?, Native.canonical?, hdrop]

/-- The text without annotations is that of the erased type. -/
theorem canonical_erased (t : Ty μ) : t.erased.canonical false = t.canonical false := by
  have texts {ts : List (Ty μ)}
      (h : ∀ t ∈ ts, t.erased.toNative.canonical? false = t.toNative.canonical? false) :
      Native.canonicalItems false (toNatives (mapAnns (fun _ => ()) none ts))
        = Native.canonicalItems false (toNatives ts) := by
    rw [toNatives_eq_map, toNatives_eq_map, mapAnns_eq_map, Native.canonicalItems_eq_map,
      Native.canonicalItems_eq_map, List.map_map, List.map_map, List.map_map]
    exact List.map_congr_left fun t ht => congrArg (Option.getD · "null") (h t ht)
  refine congrArg (Option.getD · "null") ?_
  induction t using induct with
  | list i a hi =>
    show (toNative (list i.erased ())).canonical? false = _
    rw [toNative, toNative, canonical?_node, canonical?_node]
    simp only [Native.canonical?, Native.canonicalMembers, hi]
  | map key v a hkey hv =>
    show (toNative (map key.erased v.erased ())).canonical? false = _
    rw [toNative, toNative, canonical?_node, canonical?_node]
    simp only [Native.canonical?, Native.canonicalMembers, hkey, hv]
  | tuple is a h =>
    show (toNative (tuple (mapAnns (fun _ => ()) none is) ())).canonical? false = _
    rw [toNative, toNative, canonical?_node, canonical?_node]
    simp only [Native.canonical?, Native.canonicalMembers, texts h]
  | arrow ps r a h hr =>
    show (toNative (arrow (mapAnns (fun _ => ()) none ps) r.erased ())).canonical? false = _
    rw [toNative, toNative, canonical?_node, canonical?_node]
    simp only [Native.canonical?, Native.canonicalMembers, texts h, hr]
  | union ms null a h =>
    show (toNative (union (mapAnns (fun _ => ()) none ms) (null.map fun _ => ()) ())).canonical?
      false = _
    cases null with
    | none =>
      rw [Option.map_none, toNative, toNative, canonical?_node, canonical?_node]
      simp only [Native.canonical?, Native.canonicalMembers, texts h]
    | some n =>
      rw [Option.map_some, toNative, toNative, canonical?_node, canonical?_node]
      simp only [Native.canonical?, Native.canonicalMembers, texts h, canonical?_node]
  | classRef n m d a =>
    show (toNative (classRef n m d ())).canonical? false = _
    rw [toNative, toNative, canonical?_node, canonical?_node]
  | aliasRef n m a =>
    show (toNative (aliasRef n m ())).canonical? false = _
    rw [toNative, toNative, canonical?_node, canonical?_node]
  | _ =>
    unfold erased read
    rw [mapAnn, toNative, toNative, canonical?_node, canonical?_node]

/-- Types have one shape when they are equal but for their annotations. -/
theorem sameShape_iff (h : ∀ a : μ, (Metadata.toNative a).Clear false) {t u : Ty μ} :
    t.sameShape u = true ↔ t.erased = u.erased := by
  unfold sameShape
  rw [beq_iff_eq]
  constructor
  · exact read_eq_of_canonical (Metadata.tells_nothing h) t u
  · intro heq
    rw [← canonical_erased t, heq, canonical_erased]

/-! ## All kinds of annotation -/

/-- The text of types tells exactly whether they are the same tree: with the annotations at every
node, or without any. -/
structure DecidedByText (μ : Type) [Metadata μ] : Prop where
  same_iff : ∀ t u : Ty μ, t.same u = true ↔ t = u
  sameShape_iff : ∀ t u : Ty μ, t.sameShape u = true ↔ t.erased = u.erased
  injective : Function.Injective fun t : Ty μ => t.canonical true

theorem decidedByText_of_legible (hl : Metadata.Legible μ)
    (h : ∀ a : μ, (Metadata.toNative a).Clear false) : DecidedByText μ where
  same_iff _ _ := same_iff hl
  sameShape_iff _ _ := sameShape_iff h
  injective _ _ heq := eq_of_canonical hl heq

/-- Comparing texts decides structural identity for authored, streamed and settled types. -/
theorem decided_by_text :
    DecidedByText Authored ∧ DecidedByText Streamed ∧ DecidedByText Settled :=
  ⟨decidedByText_of_legible Authored.legible (Authored.clear_toNative false),
    decidedByText_of_legible Streamed.legible (Streamed.clear_toNative false),
    decidedByText_of_legible Settled.legible (Settled.clear_toNative false)⟩

end Ty

end ShapeSchema
