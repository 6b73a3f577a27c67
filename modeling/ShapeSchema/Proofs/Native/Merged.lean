import Mathlib.Data.List.Induction
import ShapeSchema.Native.Spoken
import ShapeSchema.Proofs.Native.Alike

/-!
# Entries that meet under one key

A map that is made from entries has one entry for each key among them (`apart_setEntries`), with the
value that came last (`valueAt?_setEntries`), so it has as many as were given exactly if no two of
their keys are the same (`length_setEntries`). A plain object has its members in another order
(`entries?_record`).
-/

namespace ShapeSchema.Native

/-! ## Keys -/

theorem isNaN_of_isZero {d : Double} (h : d.isZero = true) : d.isNaN = false := by
  unfold Double.isZero at h
  rw [Bool.and_eq_true, beq_iff_eq] at h
  unfold Double.isNaN
  rw [h.1]
  rfl

theorem sameKey_number {a b : Double} : sameKey (.number a) (.number b) = true ↔
    (a.isNaN = true ∧ b.isNaN = true) ∨ (a.isNaN = false ∧ a = b) ∨
      (a.isZero = true ∧ b.isZero = true) := by
  simp only [sameKey, Double.same, Bool.or_eq_true, Bool.and_eq_true, Bool.not_eq_true',
    beq_iff_eq]
  constructor
  · rintro (h | ⟨⟨ha, -⟩, rfl | h⟩)
    · exact .inl h
    · exact .inr (.inl ⟨ha, rfl⟩)
    · exact .inr (.inr h)
  · rintro (h | ⟨ha, rfl⟩ | ⟨ha, hb⟩)
    · exact .inl h
    · exact .inr ⟨⟨ha, ha⟩, .inl rfl⟩
    · exact .inr ⟨⟨isNaN_of_isZero ha, isNaN_of_isZero hb⟩, .inr ⟨ha, hb⟩⟩

/-- Other keys than numbers are the same if they are equal scalars. -/
theorem eq_of_sameKey {a b : Native} (h : sameKey a b = true) (ha : ∀ d, a ≠ .number d) :
    a = b := by
  cases a <;> cases b <;> simp_all [sameKey]

theorem sameKey_number_left {d : Double} {b : Native} (h : sameKey (.number d) b = true) :
    ∃ e, b = .number e := by
  cases b <;> first | exact ⟨_, rfl⟩ | cases h

theorem sameKey_trans {a b c : Native} (h : sameKey a b = true) (k : sameKey b c = true) :
    sameKey a c = true := by
  by_cases ha : ∃ d, a = .number d
  · obtain ⟨d, rfl⟩ := ha
    obtain ⟨e, rfl⟩ := sameKey_number_left h
    obtain ⟨f, rfl⟩ := sameKey_number_left k
    rw [sameKey_number] at *
    rcases h with ⟨hd, he⟩ | ⟨hd, rfl⟩ | ⟨hd, he⟩
    · rcases k with ⟨-, hf⟩ | ⟨hn, -⟩ | ⟨hz, -⟩
      · exact .inl ⟨hd, hf⟩
      · cases he.symm.trans hn
      · cases he.symm.trans (isNaN_of_isZero hz)
    · exact k
    · rcases k with ⟨hn, -⟩ | ⟨-, rfl⟩ | ⟨-, hf⟩
      · cases hn.symm.trans (isNaN_of_isZero he)
      · exact .inr (.inr ⟨hd, he⟩)
      · exact .inr (.inr ⟨hd, hf⟩)
  · rwa [eq_of_sameKey h fun d hd => ha ⟨d, hd⟩]

theorem sameKey_symm {a b : Native} (h : sameKey a b = true) : sameKey b a = true :=
  sameKey_comm a b ▸ h

/-- Keys that are the same are the same as a third or not together. -/
theorem sameKey_congr {a b : Native} (h : sameKey a b = true) (c : Native) :
    sameKey a c = sameKey b c := by
  rw [Bool.eq_iff_iff]
  exact ⟨sameKey_trans (sameKey_symm h), sameKey_trans h⟩

theorem sameKey_storedKey (a b : Native) : sameKey (storedKey a) b = sameKey a b := by
  cases a with
  | number d =>
    cases hd : d.isZero with
    | true =>
      have hzero : sameKey (.number d) (.number .zero) = true :=
        sameKey_number.2 (.inr (.inr ⟨hd, by decide⟩))
      rw [storedKey, hd, sameKey_congr hzero b]
      rfl
    | false =>
      rw [storedKey, hd]
      rfl
  | _ => rfl

theorem isFinite_of_isZero {d : Double} (h : d.isZero = true) : d.isFinite = true := by
  unfold Double.isZero at h
  rw [Bool.and_eq_true, beq_iff_eq] at h
  unfold Double.isFinite
  rw [h.1]
  rfl

theorem text_of_isZero {d : Double} (h : d.isZero = true) : d.text = "0" := by
  unfold Double.text
  rw [isNaN_of_isZero h, isFinite_of_isZero h, h]
  rfl

theorem spoken?_of_sameKey {a b : Native} (h : sameKey a b = true) : a.spoken? = b.spoken? := by
  by_cases ha : ∃ d, a = .number d
  · obtain ⟨d, rfl⟩ := ha
    obtain ⟨e, rfl⟩ := sameKey_number_left h
    rw [spoken?, spoken?]
    rcases sameKey_number.1 h with ⟨hd, he⟩ | ⟨-, rfl⟩ | ⟨hd, he⟩
    · rw [Double.text, Double.text, hd, he]
      rfl
    · rfl
    · rw [text_of_isZero hd, text_of_isZero he]
  · rw [eq_of_sameKey h fun d hd => ha ⟨d, hd⟩]

theorem spoken?_storedKey (a : Native) : (storedKey a).spoken? = a.spoken? := by
  cases a with
  | number d =>
    cases hd : d.isZero with
    | true =>
      rw [storedKey, hd, spoken?, text_of_isZero hd]
      rfl
    | false =>
      rw [storedKey, hd]
      rfl
  | _ => rfl

/-! ## Setting entries -/

/-- The value of the first entry with a key. -/
def valueAt? (es : List (Native × Native)) (key : Native) : Option Native :=
  (es.find? fun p => sameKey p.1 key).map Prod.snd

variable {ks es : List (Native × Native)} {key value other : Native}

theorem valueAt?_cons (p : Native × Native) :
    valueAt? (p :: es) key = if sameKey p.1 key then some p.2 else valueAt? es key := by
  unfold valueAt?
  rw [List.find?_cons]
  cases sameKey p.1 key <;> rfl

theorem valueAt?_eq_none : valueAt? es key = none ↔ ∀ p ∈ es, sameKey p.1 key = false := by
  unfold valueAt?
  simp

theorem valueAt?_putEntry : valueAt? (putEntry es key value) other =
    if sameKey key other then some value else valueAt? es other := by
  induction es with
  | nil =>
    show valueAt? [(storedKey key, value)] other = _
    rw [valueAt?_cons, sameKey_storedKey]
  | cons p es ih =>
    unfold putEntry
    split
    · next hp =>
      rw [valueAt?_cons, valueAt?_cons, sameKey_congr hp other]
      split <;> rfl
    · next hp =>
      rw [valueAt?_cons, valueAt?_cons, ih]
      split
      · next hother =>
        -- the key in front is the other, so it is not the one that is set
        rw [if_neg fun hkey => hp (sameKey_trans hother (sameKey_symm hkey))]
      · rfl

theorem length_putEntry : (putEntry es key value).length =
    if (valueAt? es key).isSome then es.length else es.length + 1 := by
  induction es with
  | nil => rfl
  | cons p es ih =>
    unfold putEntry
    rw [valueAt?_cons]
    split
    · rfl
    · rw [List.length_cons, ih]
      split <;> rfl

theorem setEntries_append (ks : List (Native × Native)) (p : Native × Native) :
    setEntries (ks ++ [p]) = putEntry (setEntries ks) p.1 p.2 := List.foldl_append

/-- Each key has the value that came with it last. -/
theorem valueAt?_setEntries (ks : List (Native × Native)) (key : Native) :
    valueAt? (setEntries ks) key = valueAt? ks.reverse key := by
  induction ks using List.reverseRecOn with
  | nil => rfl
  | append_singleton ks p ih =>
    rw [setEntries_append, valueAt?_putEntry, ih, List.reverse_append]
    exact (valueAt?_cons p).symm

/-- No two entries have the same key. -/
def Apart (es : List (Native × Native)) : Prop := es.Pairwise fun p q => sameKey p.1 q.1 = false

theorem apart_append {p : Native × Native} :
    Apart (ks ++ [p]) ↔ Apart ks ∧ valueAt? ks.reverse p.1 = none := by
  unfold Apart
  rw [List.pairwise_append, valueAt?_eq_none]
  simp

theorem apart_iff_keys : Apart es ↔ (es.map Prod.fst).Pairwise fun a b => sameKey a b = false := by
  rw [List.pairwise_map]
  rfl

theorem keys_putEntry (h : (valueAt? es key).isSome = true) :
    (putEntry es key value).map Prod.fst = es.map Prod.fst := by
  induction es with
  | nil => cases h
  | cons p es ih =>
    unfold putEntry
    rw [valueAt?_cons] at h
    split
    · rfl
    · next hp =>
      rw [if_neg hp] at h
      rw [List.map_cons, ih h]
      rfl

theorem apart_putEntry (h : Apart es) : Apart (putEntry es key value) := by
  cases hv : valueAt? es key with
  | none =>
    have hnew := valueAt?_eq_none.1 hv
    rw [putEntry_of_new (List.forall_mem_map.2 hnew)]
    refine List.pairwise_append.2 ⟨h, List.pairwise_singleton _ _, fun p hp q hq => ?_⟩
    rw [List.mem_singleton.1 hq, sameKey_comm, sameKey_storedKey, sameKey_comm]
    exact hnew p hp
  | some v =>
    rw [apart_iff_keys, keys_putEntry (by rw [hv]; rfl)]
    exact apart_iff_keys.1 h

theorem apart_setEntries (ks : List (Native × Native)) : Apart (setEntries ks) := by
  induction ks using List.reverseRecOn with
  | nil => exact .nil
  | append_singleton ks p ih =>
    rw [setEntries_append]
    exact apart_putEntry ih

/-- There are as many entries as were given if their keys are apart, else fewer. -/
theorem length_setEntries (ks : List (Native × Native)) : (setEntries ks).length ≤ ks.length ∧
    ((setEntries ks).length = ks.length ↔ Apart ks) := by
  induction ks using List.reverseRecOn with
  | nil => exact ⟨Nat.le_refl _, fun _ => .nil, fun _ => rfl⟩
  | append_singleton ks p ih =>
    rw [setEntries_append, length_putEntry, valueAt?_setEntries, apart_append, ← ih.2,
      List.length_append, List.length_singleton]
    cases h : valueAt? ks.reverse p.1 with
    | none => simp [ih.1]
    | some v =>
      have := ih.1
      simp
      omega

theorem setEntries_of_apart (h : Apart ks) :
    setEntries ks = ks.map fun p => (storedKey p.1, p.2) := by
  induction ks using List.reverseRecOn with
  | nil => rfl
  | append_singleton ks p ih =>
    obtain ⟨hks, hnew⟩ := apart_append.1 h
    rw [← valueAt?_setEntries, valueAt?_eq_none] at hnew
    rw [setEntries_append, putEntry_of_new (List.forall_mem_map.2 hnew), ih hks, List.map_append]
    rfl

theorem mem_putEntry {q : Native × Native} (h : q ∈ putEntry es key value) :
    q.1 = storedKey key ∨ ∃ p ∈ es, q.1 = p.1 := by
  induction es with
  | nil => exact .inl (by rw [List.mem_singleton.1 h])
  | cons p es ih =>
    unfold putEntry at h
    split at h
    · rcases List.mem_cons.1 h with rfl | h
      · exact .inr ⟨p, List.mem_cons_self, rfl⟩
      · exact .inr ⟨q, List.mem_cons_of_mem _ h, rfl⟩
    · rcases List.mem_cons.1 h with rfl | h
      · exact .inr ⟨q, List.mem_cons_self, rfl⟩
      · rcases ih h with hk | ⟨r, hr, hk⟩
        · exact .inl hk
        · exact .inr ⟨r, List.mem_cons_of_mem _ hr, hk⟩

theorem mem_setEntries : ∀ q ∈ setEntries ks, ∃ p ∈ ks, q.1 = storedKey p.1 := by
  induction ks using List.reverseRecOn with
  | nil => exact fun q hq => absurd hq List.not_mem_nil
  | append_singleton ks p ih =>
    intro q hq
    rw [setEntries_append] at hq
    rcases mem_putEntry hq with hk | ⟨p', hp', hk⟩
    · exact ⟨p, by simp, hk⟩
    · obtain ⟨r, hr, hk'⟩ := ih p' hp'
      exact ⟨r, List.mem_append_left _ hr, hk.trans hk'⟩

theorem valueAt?_eq_some (h : Apart es) :
    valueAt? es key = some value ↔ ∃ p ∈ es, sameKey p.1 key = true ∧ p.2 = value := by
  induction es with
  | nil => simp [valueAt?]
  | cons p es ih =>
    obtain ⟨hfirst, hrest⟩ := List.pairwise_cons.1 h
    rw [valueAt?_cons]
    split
    · next hp =>
      constructor
      · intro hv
        exact ⟨p, List.mem_cons_self, hp, Option.some.inj hv⟩
      · rintro ⟨q, hq, hqk, rfl⟩
        rcases List.mem_cons.1 hq with rfl | hq
        · rfl
        · have := sameKey_trans hp (sameKey_symm hqk)
          rw [hfirst q hq] at this
          cases this
    · next hp =>
      rw [ih hrest]
      simp [hp]

theorem Apart.perm {fs : List (Native × Native)} (h : es.Perm fs) (ha : Apart es) : Apart fs :=
  h.pairwise ha fun hpq => (sameKey_comm _ _).trans hpq

theorem valueAt?_eq_of_perm {fs : List (Native × Native)} (h : es.Perm fs) (ha : Apart es)
    (key : Native) : valueAt? es key = valueAt? fs key := by
  apply Option.ext
  intro v
  rw [valueAt?_eq_some ha, valueAt?_eq_some (ha.perm h)]
  simp only [h.mem_iff]

/-! ## Members of plain objects -/

/-- The name under which a plain object has a key. -/
def memberName (k : Native) : String := k.spoken?.getD ""

theorem entries?_record (ms : List (String × Native)) : ∃ es, (record ms).entries? = some es ∧
    es.Perm ((Entries.ofList ms).map fun p => (.text p.1, p.2)) :=
  ⟨_, rfl, (objectOrder_perm _).map _⟩

theorem apart_texts {ms : List (String × Native)} (nd : (Entries.keys ms).Nodup) :
    Apart (ms.map fun p => (.text p.1, p.2)) := by
  unfold Apart
  rw [List.pairwise_map]
  exact (List.pairwise_map.1 nd).imp fun h => beq_eq_false_iff_ne.2 h

/-! ## Items of sets -/

end ShapeSchema.Native
