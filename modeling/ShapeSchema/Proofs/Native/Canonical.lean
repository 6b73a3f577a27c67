import ShapeSchema.Native.Canonical
import ShapeSchema.Proofs.Decimal.Whole
import ShapeSchema.Proofs.Native.Entries
import ShapeSchema.Proofs.Text.Written

/-!
# Canonical text tells the data

Data without numbers, maps and sets is `Clear`: its canonical text is written data. The text of a
clear array tells the texts of its items (`map_canonical_eq_of_array`), that of a clear object the
text of the member under every name (`find?_canonical_eq_of_object`).
-/

namespace ShapeSchema.Native

open Text (Written separated)

/-- Data that is written without numbers, maps and sets. -/
def Clear (full : Bool) (v : Native) : Prop :=
  (canonical? full v).isSome = true ∧ Written (v.canonical full).toList

theorem canonicalItems_eq_map (full : Bool) (vs : List Native) :
    canonicalItems full vs = vs.map (·.canonical full) := by
  induction vs with
  | nil => rfl
  | cons v vs ih => rw [canonicalItems, ih]; rfl

/-- The members that are written, with their texts. -/
def memberTexts (full : Bool) (ms : List (String × Native)) : List (String × String) :=
  (ms.filter fun p => full || p.1 != "meta").map fun p => (p.1, p.2.canonical full)

theorem canonicalMembers_eq_map {full : Bool} {ms : List (String × Native)}
    (h : ∀ p ∈ ms, p.2.Clear full) :
    canonicalMembers full ms = memberTexts full ms := by
  induction ms with
  | nil => rfl
  | cons p ms ih =>
    obtain ⟨k, v⟩ := p
    obtain ⟨t, ht⟩ := Option.isSome_iff_exists.1 (h _ List.mem_cons_self).1
    have hv : v.canonical full = t := by unfold canonical; rw [ht]; rfl
    rw [canonicalMembers]
    simp only [ht]
    rw [ih fun q hq => h q (List.mem_cons_of_mem _ hq)]
    unfold memberTexts
    cases full with
    | true => simp [hv]
    | false =>
      by_cases hk : k = "meta"
      · simp [hk]
      · simp [hk, hv]

theorem canonical_array (full : Bool) (vs : List Native) :
    ((array vs).canonical full).toList
      = '[' :: separated (vs.map fun v => (v.canonical full).toList) ++ [']'] := by
  unfold canonical
  rw [canonical?, Option.getD_some, canonicalItems_eq_map]
  simp only [String.toList_append, Text.toList_intercalate_comma, List.map_map]
  rfl

theorem canonical_object {full : Bool} {ms : List (String × Native)}
    (h : ∀ p ∈ ms, p.2.Clear full) :
    ((object ms).canonical full).toList
      = '\x7b' :: separated ((canonicalOrder (memberTexts full ms)).map fun p =>
          Text.member (p.1.toList, p.2.toList)) ++ ['\x7d'] := by
  unfold canonical
  rw [canonical?, Option.getD_some, canonicalMembers_eq_map h]
  have key : ∀ p : String × String, (Text.quoted p.1 ++ ":" ++ p.2).toList
      = Text.member (p.1.toList, p.2.toList) := fun p => by
    simp [Text.member, Text.quoted, String.toList_append]
  rw [String.toList_append, String.toList_append, Text.toList_intercalate_comma, List.map_map,
    ← List.map_congr_left fun p _ => key p]
  rfl

theorem canonicalOrder_perm {β : Type} (es : List (String × β)) : (canonicalOrder es).Perm es :=
  (objectOrder_perm _).trans (List.mergeSort_perm _ _)

/-! ## Data that is clear -/

theorem clear_text (full : Bool) (s : String) : (text s).Clear full := by
  refine ⟨rfl, ?_⟩
  show Written (String.ofList _).toList
  rw [String.toList_ofList]
  exact .quoted _

theorem clear_big (full : Bool) (n : Int) : (big n).Clear full := by
  refine ⟨rfl, ?_⟩
  show Written (String.ofList _).toList
  rw [String.toList_ofList]
  exact .quoted _

theorem clear_bool (full b : Bool) : (bool b).Clear full := by
  refine ⟨rfl, ?_⟩
  cases b
  · exact .false
  · exact .true

theorem clear_array {full : Bool} {vs : List Native} (h : ∀ v ∈ vs, v.Clear full) :
    (array vs).Clear full := by
  refine ⟨rfl, ?_⟩
  rw [canonical_array]
  refine .array _ fun t ht => ?_
  obtain ⟨v, hv, rfl⟩ := List.mem_map.1 ht
  exact (h v hv).2

theorem written_memberTexts {full : Bool} {ms : List (String × Native)}
    (h : ∀ p ∈ ms, p.2.Clear full) :
    ∀ q ∈ (canonicalOrder (memberTexts full ms)).map fun p => (p.1.toList, p.2.toList),
      Written q.2 := by
  intro q hq
  obtain ⟨p, hp, rfl⟩ := List.mem_map.1 hq
  obtain ⟨m, hm, rfl⟩ := List.mem_map.1 ((canonicalOrder_perm _).mem_iff.1 hp)
  exact (h m (List.mem_filter.1 hm).1).2

theorem clear_object {full : Bool} {ms : List (String × Native)} (h : ∀ p ∈ ms, p.2.Clear full) :
    (object ms).Clear full := by
  refine ⟨rfl, ?_⟩
  rw [canonical_object h]
  have := Written.object ((canonicalOrder (memberTexts full ms)).map fun p =>
    (p.1.toList, p.2.toList)) (written_memberTexts h)
  rwa [List.map_map] at this

/-! ## What a text tells -/

theorem text_eq_of_canonical {full : Bool} {s t : String}
    (h : (text s).canonical full = (text t).canonical full) : s = t := by
  have h' : Text.quotedChars s.toList = Text.quotedChars t.toList := String.ofList_injective h
  have := (Text.quotedChars_unique s.toList t.toList [] [] (by simpa using h')).1
  exact String.toList_inj.1 this

theorem big_eq_of_canonical {full : Bool} {m n : Int}
    (h : (big m).canonical full = (big n).canonical full) : m = n :=
  Decimal.toString_injective (@text_eq_of_canonical full _ _ h)

theorem map_canonical_eq_of_array {full : Bool} {vs ws : List Native}
    (hv : ∀ v ∈ vs, v.Clear full) (hw : ∀ w ∈ ws, w.Clear full)
    (h : (array vs).canonical full = (array ws).canonical full) :
    vs.map (·.canonical full) = ws.map (·.canonical full) := by
  have h' := congrArg String.toList h
  rw [canonical_array, canonical_array] at h'
  have := Text.array_injective
    (by intro t ht; obtain ⟨v, hm, rfl⟩ := List.mem_map.1 ht; exact (hv v hm).2)
    (by intro t ht; obtain ⟨w, hm, rfl⟩ := List.mem_map.1 ht; exact (hw w hm).2) h'
  apply List.map_injective_iff.2 (fun _ _ => String.toList_inj.1)
  rwa [List.map_map, List.map_map]

theorem canonicalOrder_eq_of_object {full : Bool} {ms ns : List (String × Native)}
    (hm : ∀ p ∈ ms, p.2.Clear full) (hn : ∀ p ∈ ns, p.2.Clear full)
    (h : (object ms).canonical full = (object ns).canonical full) :
    canonicalOrder (memberTexts full ms) = canonicalOrder (memberTexts full ns) := by
  have h' := congrArg String.toList h
  rw [canonical_object hm, canonical_object hn] at h'
  have heq := Text.object_injective (written_memberTexts hm) (written_memberTexts hn)
    (by rw [List.map_map, List.map_map]; exact h')
  refine List.map_injective_iff.2 (fun p q hpq => ?_) heq
  obtain ⟨hk, hv⟩ := Prod.mk.inj hpq
  exact Prod.ext (String.toList_inj.1 hk) (String.toList_inj.1 hv)

theorem keys_memberTexts_nodup {full : Bool} {ms : List (String × Native)}
    (nd : (Entries.keys ms).Nodup) : (Entries.keys (memberTexts full ms)).Nodup := by
  unfold memberTexts
  rw [Entries.keys_map (fun v : Native => v.canonical full)]
  exact nd.sublist (List.filter_sublist.map _)

theorem find?_memberTexts {full : Bool} {key : String} (hk : full = true ∨ key ≠ "meta")
    (ms : List (String × Native)) :
    Entries.find? (memberTexts full ms) key
      = (Entries.find? ms key).map (·.canonical full) := by
  unfold memberTexts
  rw [Entries.find?_map (fun v : Native => v.canonical full),
    Entries.find?_filter fun k => full || k != "meta"]
  rcases hk with rfl | hk <;> simp [*]

/-- Two objects of one text hold members of one text under every name that is written. -/
theorem find?_canonical_eq_of_object {full : Bool} {ms ns : List (String × Native)}
    (hm : ∀ p ∈ ms, p.2.Clear full) (hn : ∀ p ∈ ns, p.2.Clear full)
    (nd : (Entries.keys ms).Nodup) (h : (object ms).canonical full = (object ns).canonical full)
    (key : String) (hk : full = true ∨ key ≠ "meta") :
    (Entries.find? ms key).map (·.canonical full)
      = (Entries.find? ns key).map (·.canonical full) := by
  have hp : (memberTexts full ms).Perm (memberTexts full ns) := by
    refine (canonicalOrder_perm _).symm.trans ?_
    rw [canonicalOrder_eq_of_object hm hn h]
    exact canonicalOrder_perm _
  rw [← find?_memberTexts hk ms, ← find?_memberTexts hk ns]
  exact Entries.find?_eq_of_perm hp (keys_memberTexts_nodup nd) key

end ShapeSchema.Native
