import ShapeSchema.Proofs.Lists
import ShapeSchema.Proofs.Native.Alike
import ShapeSchema.Proofs.Native.Canonical
import ShapeSchema.Proofs.Text.Order

/-!
# Canonical text and the order of members

Members of distinct keys have one canonical order, whatever the order in which they are given
(`canonicalOrder_eq_of_perm`): sorting by code units leaves no choice, and what becomes of the
sorted list depends on that list alone. Alike values therefore have one canonical text
(`canonical?_eq_of_alike`), by induction on their size.
-/

namespace ShapeSchema.Native

/-! ## The canonical order of members -/

/-- Order of members: by key. -/
def memberLe {β : Type} (p q : String × β) : Bool := Text.le p.1 q.1

theorem pairwise_memberLe {β : Type} (es : List (String × β)) :
    (es.mergeSort memberLe).Pairwise fun p q => memberLe p q = true := by
  refine List.pairwise_mergeSort (fun p q r hpq hqr => ?_) (fun p q => ?_) es
  · exact Text.le_trans hpq hqr
  · exact Text.le_total p.1 q.1

/-- Members of distinct keys have one canonical order. -/
theorem canonicalOrder_eq_of_perm {β : Type} {es fs : List (String × β)} (h : es.Perm fs)
    (nd : (Entries.keys es).Nodup) : canonicalOrder es = canonicalOrder fs := by
  have hes := List.mergeSort_perm es memberLe
  have hfs := List.mergeSort_perm fs memberLe
  have hsorted : es.mergeSort memberLe = fs.mergeSort memberLe := by
    refine eq_of_perm_of_key Prod.fst (fun p q hpq hqp => ?_) (hes.trans (h.trans hfs.symm)) ?_
      (pairwise_memberLe es) (pairwise_memberLe fs)
    · exact Text.eq_of_le_of_le hpq hqp
    · exact (hes.map _).nodup_iff.2 nd
  exact congrArg objectOrder hsorted

/-! ## Members that are written -/

/-- The text with which a member is written, unless it is left out. -/
def memberText? (full : Bool) (p : String × Native) : Option String :=
  if !full && p.1 == "meta" then none else canonical? full p.2

theorem canonicalMembers_eq_filterMap (full : Bool) (ms : List (String × Native)) :
    canonicalMembers full ms
      = ms.filterMap fun p => (memberText? full p).map fun t => (p.1, t) := by
  induction ms with
  | nil => rfl
  | cons p ms ih =>
    obtain ⟨k, v⟩ := p
    rw [canonicalMembers]
    by_cases hmeta : (!full && k == "meta") = true
    · have hnone : memberText? full (k, v) = none := if_pos hmeta
      rw [List.filterMap_cons_none (by rw [hnone]; rfl), ← ih]
      split
      · rw [if_pos hmeta]
      · rfl
    · have htext : memberText? full (k, v) = canonical? full v := if_neg hmeta
      split
      · next t ht =>
        rw [if_neg hmeta, List.filterMap_cons_some (by rw [htext, ht]; rfl), ih]
      · next ht => rw [List.filterMap_cons_none (by rw [htext, ht]; rfl), ih]

/-- Objects of the same keys are written with the same members, if under every key the values have
one text. -/
theorem canonicalMembers_perm (full : Bool) {ms ns : List (String × Native)}
    (nd : (Entries.keys ms).Nodup) (hkeys : (Entries.keys ms).Perm (Entries.keys ns))
    (h : ∀ k v w, Entries.find? ms k = some v → Entries.find? ns k = some w →
      canonical? full v = canonical? full w) :
    (canonicalMembers full ms).Perm (canonicalMembers full ns) := by
  have ndn : (Entries.keys ns).Nodup := hkeys.nodup_iff.1 nd
  have texts (k : String) : (Entries.find? ms k).bind (fun v => memberText? full (k, v))
      = (Entries.find? ns k).bind fun w => memberText? full (k, w) := by
    cases hv : Entries.find? ms k with
    | none =>
      have hk := hkeys.mem_iff.not.1 (Entries.find?_eq_none.1 hv)
      rw [Entries.find?_eq_none.2 hk]
    | some v =>
      have hk := hkeys.mem_iff.1 (List.mem_map_of_mem (Entries.mem_of_find?_eq_some hv))
      obtain ⟨w, hw⟩ := Entries.exists_find? hk
      rw [hw]
      unfold memberText?
      rw [Option.bind_some, Option.bind_some, h k v w hv hw]
  rw [canonicalMembers_eq_filterMap, canonicalMembers_eq_filterMap]
  have written := Entries.keys_filterMap_sublist (memberText? full)
  refine (List.perm_ext_iff_of_nodup ((nd.sublist (written ms)).of_map _)
    ((ndn.sublist (written ns)).of_map _)).2 fun p => ?_
  have key {es : List (String × Native)} (nd : (Entries.keys es).Nodup) :
      p ∈ (es.filterMap fun q => (memberText? full q).map fun t => (q.1, t)) ↔
        (Entries.find? es p.1).bind (fun v => memberText? full (p.1, v)) = some p.2 := by
    rw [← Entries.find?_filterMap (memberText? full) nd,
      Entries.find?_eq_some_iff (nd.sublist (written es))]
  rw [key nd, key ndn, texts]

/-! ## Alike values -/

theorem canonicalItems_congr {full : Bool} {vs ws : List Native}
    (h : List.Forall₂ (fun v w => canonical? full v = canonical? full w) vs ws) :
    canonicalItems full vs = canonicalItems full ws := by
  induction h with
  | nil => rfl
  | cons hvw _ ih => rw [canonicalItems, canonicalItems, hvw, ih]

theorem canonicalPairs_eq_map (full : Bool) (es : List (Native × Native)) :
    canonicalPairs full es = (canonicalItems full (es.map Prod.fst)).zipWith
      (fun k v => "[" ++ k ++ "," ++ v ++ "]") (canonicalItems full (es.map Prod.snd)) := by
  induction es with
  | nil => rfl
  | cons p es ih =>
    rw [canonicalPairs, ih]
    rfl

/-- Values that differ in the order of object members only have one canonical text. -/
theorem canonical?_eq_of_alike (full : Bool) {v w : Native} (h : Alike v w) :
    canonical? full v = canonical? full w := by
  cases h with
  | refl => rfl
  | @array xs ys h =>
    have items := forall₂_imp_mem h fun x hx y hxy =>
      have := sizeOf_item (v := .array xs) rfl hx
      canonical?_eq_of_alike full hxy
    rw [canonical?, canonical?, canonicalItems_congr items]
  | set h => rfl
  | @map es fs hkeys hvalues =>
    have keys := forall₂_imp_mem hkeys fun x hx y hxy =>
      have : sizeOf x < sizeOf (Native.map es) := by
        obtain ⟨p, hp, rfl⟩ := List.mem_map.1 hx
        exact (sizeOf_entry (v := .map es) rfl hp).1
      canonical?_eq_of_alike full hxy
    have values := forall₂_imp_mem hvalues fun x hx y hxy =>
      have : sizeOf x < sizeOf (Native.map es) := by
        obtain ⟨p, hp, rfl⟩ := List.mem_map.1 hx
        exact (sizeOf_entry (v := .map es) rfl hp).2
      canonical?_eq_of_alike full hxy
    rw [canonical?, canonical?, canonicalPairs_eq_map, canonicalPairs_eq_map,
      canonicalItems_congr keys, canonicalItems_congr values]
  | @object ms ns nd hkeys hmembers =>
    have members := canonicalMembers_perm full nd hkeys fun k x y hx hy =>
      have : sizeOf x < sizeOf (Native.object ms) := by
        have := sizeOf_member (v := .object ms) rfl k
        rwa [member, hx] at this
      canonical?_eq_of_alike full (hmembers k x y hx hy)
    have ndm : (Entries.keys (canonicalMembers full ms)).Nodup := by
      rw [canonicalMembers_eq_filterMap]
      exact nd.sublist (Entries.keys_filterMap_sublist _ ms)
    rw [canonical?, canonical?, canonicalOrder_eq_of_perm members ndm]
termination_by sizeOf v
decreasing_by all_goals assumption

end ShapeSchema.Native
