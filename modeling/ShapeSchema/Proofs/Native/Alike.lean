import ShapeSchema.Native.Parts
import ShapeSchema.Proofs.Lists
import ShapeSchema.Proofs.Native.Entries

/-!
# Alike native values

Two native values are `Alike` if they are equal but for the order of object members. Alike values
are the same key or not the same key together, so a set or map that is made from values alike to its
own is alike to it again (`alike_ofItems`, `alike_ofEntries`).
-/

namespace ShapeSchema.Native

/-! ## Keys of sets and maps -/

theorem same_comm (a b : Double) : a.same b = b.same a := by
  unfold Double.same
  rw [Bool.and_comm (!a.isNaN), Bool.and_comm a.isZero, Bool.beq_comm (a := a)]

theorem sameKey_comm (a b : Native) : sameKey a b = sameKey b a := by
  cases a <;> cases b <;>
    first
    | rfl
    | exact Bool.beq_comm
    | (simp only [sameKey]; rw [same_comm, Bool.and_comm])

/-- Keys as a set or map holds them: no two the same, and no negative zero among them. -/
structure Stored (ks : List Native) : Prop where
  normal : ∀ k ∈ ks, storedKey k = k
  distinct : ks.Pairwise fun a b => sameKey a b = false

theorem ofItems_of_stored {items : List Native} (h : Stored items) :
    ofItems items = .set items := by
  have run : ∀ acc rest : List Native, Stored (acc ++ rest) →
      rest.foldl (fun acc v => if acc.any (sameKey v) then acc else acc ++ [storedKey v]) acc
        = acc ++ rest := by
    intro acc rest
    induction rest generalizing acc with
    | nil => simp
    | cons v rest ih =>
      intro h
      have hnew : acc.any (sameKey v) = false := by
        rw [List.any_eq_false]
        intro a ha
        have := (List.pairwise_append.1 h.distinct).2.2 a ha v List.mem_cons_self
        rw [sameKey_comm, this]
        decide
      rw [List.foldl_cons, hnew, if_neg Bool.false_ne_true, h.normal v (by simp)]
      have happ : acc ++ v :: rest = acc ++ [v] ++ rest := by simp
      rw [happ] at h ⊢
      exact ih (acc ++ [v]) h
  unfold ofItems
  rw [run [] items h]
  rfl

theorem putEntry_of_new {es : List (Native × Native)} {key value : Native}
    (h : ∀ k ∈ es.map Prod.fst, sameKey k key = false) :
    putEntry es key value = es ++ [(storedKey key, value)] := by
  induction es with
  | nil => rfl
  | cons p es ih =>
    unfold putEntry
    rw [h p.1 List.mem_cons_self, if_neg Bool.false_ne_true,
      ih fun k hk => h k (List.mem_cons_of_mem _ hk)]
    rfl

theorem setEntries_of_stored {es : List (Native × Native)} (h : Stored (es.map Prod.fst)) :
    setEntries es = es := by
  have run : ∀ acc rest : List (Native × Native), Stored ((acc ++ rest).map Prod.fst) →
      rest.foldl (fun acc p => putEntry acc p.1 p.2) acc = acc ++ rest := by
    intro acc rest
    induction rest generalizing acc with
    | nil => simp
    | cons p rest ih =>
      intro h
      have hnew : ∀ k ∈ acc.map Prod.fst, sameKey k p.1 = false := by
        intro k hk
        have hd := h.distinct
        rw [List.map_append] at hd
        exact (List.pairwise_append.1 hd).2.2 k hk p.1 List.mem_cons_self
      rw [List.foldl_cons, putEntry_of_new hnew, h.normal p.1 (by simp)]
      have happ : acc ++ p :: rest = acc ++ [p] ++ rest := by simp
      rw [happ] at h ⊢
      exact ih (acc ++ [p]) h
  exact run [] es h

theorem ofEntries_of_stored {es : List (Native × Native)} (h : Stored (es.map Prod.fst)) :
    ofEntries es = .map es := congrArg _ (setEntries_of_stored h)

/-! ## Alikeness -/

/-- Equal but for the order of object members. -/
inductive Alike : Native → Native → Prop where
  | refl (v : Native) : Alike v v
  | array {xs ys : List Native} : List.Forall₂ Alike xs ys → Alike (.array xs) (.array ys)
  | set {xs ys : List Native} : List.Forall₂ Alike xs ys → Alike (.set xs) (.set ys)
  | map {es fs : List (Native × Native)} :
      List.Forall₂ Alike (es.map Prod.fst) (fs.map Prod.fst) →
      List.Forall₂ Alike (es.map Prod.snd) (fs.map Prod.snd) → Alike (.map es) (.map fs)
  | object {ms ns : List (String × Native)} :
      (Entries.keys ms).Nodup → (Entries.keys ms).Perm (Entries.keys ns) →
      (∀ k v w, Entries.find? ms k = some v → Entries.find? ns k = some w → Alike v w) →
      Alike (.object ms) (.object ns)

theorem Alike.text_eq {s : String} {v : Native} (h : Alike (.text s) v) : v = .text s := by
  cases h
  rfl

theorem Alike.member {ms ns : List (String × Native)} (h : Alike (.object ms) (.object ns))
    {key : String} {v w : Native} (hv : Entries.find? ms key = some v)
    (hw : Entries.find? ns key = some w) : Alike v w := by
  cases h with
  | refl =>
    rw [Option.some.inj (hv.symm.trans hw)]
    exact .refl w
  | object _ _ h => exact h _ _ _ hv hw

theorem Alike.storedKey {v w : Native} (h : Alike v w) (hv : v.storedKey = v) :
    w.storedKey = w := by
  cases h with
  | refl => exact hv
  | _ => rfl

theorem Alike.sameKey {v v' w w' : Native} (hv : Alike v v') (hw : Alike w w')
    (h : Native.sameKey v w = false) : Native.sameKey v' w' = false := by
  cases hv with
  | refl =>
    cases hw with
    | refl => exact h
    | _ => cases v <;> rfl
  | _ => rfl

theorem Stored.alike {ks ls : List Native} (h : List.Forall₂ Alike ks ls) (hs : Stored ks) :
    Stored ls := by
  induction h with
  | nil => exact hs
  | cons hk hrest ih =>
    obtain ⟨hnormal, hdistinct⟩ := hs
    rw [List.pairwise_cons] at hdistinct
    obtain ⟨hfirst, hothers⟩ := hdistinct
    obtain ⟨ihn, ihd⟩ := ih ⟨fun k h => hnormal k (List.mem_cons_of_mem _ h), hothers⟩
    refine ⟨fun l hl => ?_, List.pairwise_cons.2 ⟨fun l hl => ?_, ihd⟩⟩
    · rcases List.mem_cons.1 hl with rfl | hl
      · exact hk.storedKey (hnormal _ List.mem_cons_self)
      · exact ihn l hl
    · obtain ⟨k, hmem, halike⟩ := exists_of_forall₂ hrest hl
      exact hk.sameKey halike (hfirst k hmem)

/-! ## Values made from alike parts -/

theorem alike_ofItems {xs ys : List Native} (h : List.Forall₂ Alike xs ys) (hs : Stored xs) :
    Alike (.set xs) (ofItems ys) := by
  rw [ofItems_of_stored (hs.alike h)]
  exact .set h

theorem alike_ofEntries {es fs : List (Native × Native)}
    (h : List.Forall₂ (fun p q => Alike p.1 q.1 ∧ Alike p.2 q.2) es fs)
    (hs : Stored (es.map Prod.fst)) : Alike (.map es) (ofEntries fs) := by
  have hkeys : List.Forall₂ Alike (es.map Prod.fst) (fs.map Prod.fst) := by
    rw [List.forall₂_map_left_iff, List.forall₂_map_right_iff]
    exact h.imp fun _ _ hp => hp.1
  have hvalues : List.Forall₂ Alike (es.map Prod.snd) (fs.map Prod.snd) := by
    rw [List.forall₂_map_left_iff, List.forall₂_map_right_iff]
    exact h.imp fun _ _ hp => hp.2
  rw [ofEntries_of_stored (hs.alike hkeys)]
  exact .map hkeys hvalues

theorem alike_object {ms ns : List (String × Native)} (nd : (Entries.keys ms).Nodup)
    (hkeys : (Entries.keys ms).Perm (Entries.keys ns))
    (h : ∀ p ∈ ns, ∃ v, Entries.find? ms p.1 = some v ∧ Alike v p.2) :
    Alike (.object ms) (.object ns) := by
  refine .object nd hkeys fun k v w hv hw => ?_
  obtain ⟨x, hx, halike⟩ := h (k, w) (Entries.mem_of_find?_eq_some hw)
  obtain rfl : v = x := Option.some.inj (hv.symm.trans hx)
  exact halike

theorem alike_reverse {ms : List (String × Native)} (nd : (Entries.keys ms).Nodup) :
    Alike (.object ms) (.object ms.reverse) := by
  refine alike_object nd ((List.reverse_perm ms).map Prod.fst).symm fun p hp => ?_
  exact ⟨p.2, (Entries.find?_eq_some_iff nd).2 (List.mem_reverse.1 hp), .refl p.2⟩

theorem alike_record {ms ns : List (String × Native)} (nd : (Entries.keys ms).Nodup)
    (hkeys : (Entries.keys ms).Perm (Entries.keys ns))
    (h : ∀ p ∈ ns, ∃ v, Entries.find? ms p.1 = some v ∧ Alike v p.2) :
    Alike (.object ms) (record ns) := by
  have ndn : (Entries.keys ns).Nodup := hkeys.nodup_iff.1 nd
  have horder : (objectOrder ns).Perm ns := objectOrder_perm ns
  unfold record
  rw [Entries.ofList_of_nodup ndn]
  refine alike_object nd (hkeys.trans (horder.map Prod.fst).symm) fun p hp => ?_
  exact h p (horder.mem_iff.1 hp)

end ShapeSchema.Native
