import Mathlib.Data.List.Perm.Subperm
import ShapeSchema.Proofs.Lists
import ShapeSchema.Proofs.Native.Entries
import ShapeSchema.Schema.Definition
import ShapeSchema.Value.Parts

/-!
# Equality of values

Equal values differ at most in the order of map and class entries and in the sign of zeros. Where
keys are distinct at every depth (`Value.Keyed`), tables of one length in which every entry of the
first is found in the second agree under every key (`Value.sameTable_iff`), so that what is looked up
in equal values is equal. `Value.Like` is equality one level deep, as the cases that a walk over two
equal values meets.
-/

namespace ShapeSchema

/-! ## Floats -/

namespace Double

theorem text_eq_of_same {a b : Double} (h : a.same b = true) : a.text = b.text := by
  unfold same at h
  simp only [Bool.and_eq_true, Bool.not_eq_true', Bool.or_eq_true, beq_iff_eq] at h
  obtain ⟨⟨ha, hb⟩, rfl | ⟨hza, hzb⟩⟩ := h
  · rfl
  · have zero : ∀ d : Double, d.isNaN = false → d.isZero = true → d.text = "0" := by
      intro d hnan hzero
      have hfinite : d.isFinite = true := by
        unfold isZero at hzero
        unfold isFinite
        simp at hzero ⊢
        omega
      unfold text
      rw [hnan, hfinite, hzero]
      rfl
    rw [zero a ha hza, zero b hb hzb]

theorem same_self {d : Double} (h : d.isNaN = false) : d.same d = true := by
  unfold same
  rw [h, beq_self_eq_true]
  rfl

/-- Rounding a quotient never gives the number that is not a number. -/
theorem isNaN_ofQuotient (neg : Bool) (num den : Nat) : (ofQuotient neg num den).isNaN = false := by
  have small : ∀ n, n < 2047 * exponentWeight → (ofMagnitudeBits neg n).isNaN = false := by
    intro n hn
    have hbits : (ofMagnitudeBits neg n).exponentBits ≠ 2047 := by
      unfold exponentBits ofMagnitudeBits
      unfold exponentWeight at hn ⊢
      cases neg <;> simp [signWeight] <;> omega
    unfold isNaN
    simp [hbits]
  have capped : ∀ n, (if 2047 * exponentWeight ≤ n then infinity neg
      else ofMagnitudeBits neg n).isNaN = false := by
    intro n
    split
    · cases neg <;> decide
    · next hn => exact small n (Nat.lt_of_not_le hn)
  unfold ofQuotient
  split
  · exact small 0 (by decide)
  · exact capped _

theorem same_ofInt (n : Int) : (ofInt n).same (ofInt n) = true :=
  same_self (isNaN_ofQuotient _ _ _)

end Double

/-! ## Tables -/

namespace Entries

variable {β : Type}

/-- Tables with distinct keys that hold related values under every key. -/
structure Like (R : β → β → Prop) (es fs : List (String × β)) : Prop where
  left : (keys es).Nodup
  right : (keys fs).Nodup
  find : ∀ key, Option.Rel R (find? es key) (find? fs key)

variable {R : β → β → Prop} {es fs : List (String × β)}

theorem Like.mem_keys (h : Like R es fs) (key : String) : key ∈ keys es ↔ key ∈ keys fs := by
  have hfind := h.find key
  have found : ∀ gs : List (String × β), key ∈ keys gs ↔ find? gs key ≠ none := fun gs => by
    rw [ne_eq, find?_eq_none, not_not]
  rw [found, found]
  generalize find? es key = x at hfind ⊢
  generalize find? fs key = y at hfind ⊢
  cases hfind <;> simp

theorem Like.keys_perm (h : Like R es fs) : (keys es).Perm (keys fs) :=
  (List.perm_ext_iff_of_nodup h.left h.right).2 h.mem_keys

/-- Setting related entries one after the other gives related tables. -/
theorem Like.ofList {gs hs : List (String × β)}
    (h : List.Forall₂ (fun p q => p.1 = q.1 ∧ R p.2 q.2) gs hs) :
    Like R (Entries.ofList gs) (Entries.ofList hs) := by
  refine ⟨nodup_ofList gs, nodup_ofList hs, fun key => ?_⟩
  have run : ∀ acc acc' : List (String × β), Option.Rel R (find? acc key) (find? acc' key) →
      Option.Rel R (find? (gs.foldl (fun acc p => insert acc p.1 p.2) acc) key)
        (find? (hs.foldl (fun acc p => insert acc p.1 p.2) acc') key) := by
    induction h with
    | nil => exact fun _ _ h => h
    | @cons p q gs hs hpq _ ih =>
      intro acc acc' hacc
      refine ih _ _ ?_
      rw [find?_insert, find?_insert, hpq.1]
      split
      · exact .some hpq.2
      · exact hacc
  exact run [] [] .none

end Entries

/-! ## Values -/

namespace Value

/-- The keys of maps and classes are distinct at every depth. -/
inductive Keyed : Value → Prop where
  | leaf {v : Value} : v.items? = none → v.entries? = none → Keyed v
  | list {vs : List Value} : (∀ v ∈ vs, Keyed v) → Keyed (.list vs)
  | map {es : List (String × Value)} : (Entries.keys es).Nodup → (∀ p ∈ es, Keyed p.2) →
      Keyed (.map es)
  | classOf {name : String} {es : List (String × Value)} : (Entries.keys es).Nodup →
      (∀ p ∈ es, Keyed p.2) → Keyed (.classOf name es)

/-- Equality as a relation. -/
def Same (v w : Value) : Prop := v.same w = true

theorem sameItems_iff {vs ws : List Value} :
    sameItems vs ws = true ↔ List.Forall₂ Same vs ws := by
  induction vs generalizing ws with
  | nil => cases ws <;> simp [sameItems]
  | cons v vs ih =>
    cases ws with
    | nil => simp [sameItems]
    | cons w ws =>
      rw [sameItems, Bool.and_eq_true, List.forall₂_cons, ih]
      exact Iff.rfl

theorem sameEntries_iff {es fs : List (String × Value)} : sameEntries es fs = true ↔
    ∀ p ∈ es, ∃ w, Entries.find? fs p.1 = some w ∧ p.2.Same w := by
  induction es with
  | nil => simp [sameEntries]
  | cons p es ih =>
    obtain ⟨k, v⟩ := p
    rw [sameEntries, Bool.and_eq_true, List.forall_mem_cons, ih]
    refine and_congr_left fun _ => ?_
    cases Entries.find? fs k with
    | none => simp
    | some w => simp [Same]

/-- Tables with distinct keys are equal if they hold equal values under every key. -/
theorem sameTable_iff {es fs : List (String × Value)} (hes : (Entries.keys es).Nodup)
    (hfs : (Entries.keys fs).Nodup) :
    (es.length == fs.length && sameEntries es fs) = true ↔ Entries.Like Same es fs := by
  rw [Bool.and_eq_true, beq_iff_eq, sameEntries_iff]
  constructor
  · rintro ⟨hlength, hfound⟩
    have hsubset : Entries.keys es ⊆ Entries.keys fs := by
      intro key hkey
      obtain ⟨p, hp, rfl⟩ := List.mem_map.1 hkey
      obtain ⟨w, hw, -⟩ := hfound p hp
      exact List.mem_map.2 ⟨_, Entries.mem_of_find?_eq_some hw, rfl⟩
    have hperm : (Entries.keys es).Perm (Entries.keys fs) :=
      (List.subperm_of_subset hes hsubset).perm_of_length_le (by simp [Entries.keys, hlength])
    refine ⟨hes, hfs, fun key => ?_⟩
    cases hv : Entries.find? es key with
    | none =>
      have hnone := (hperm.mem_iff.not.1 (Entries.find?_eq_none.1 hv))
      rw [Entries.find?_eq_none.2 hnone]
      exact .none
    | some v =>
      obtain ⟨w, hw, hsame⟩ := hfound _ (Entries.mem_of_find?_eq_some hv)
      rw [hw]
      exact .some hsame
  · intro h
    refine ⟨?_, fun p hp => ?_⟩
    · have hlength := h.keys_perm.length_eq
      simpa [Entries.keys] using hlength
    · have hfind := h.find p.1
      rw [Entries.find?_eq_some_of_mem hes hp] at hfind
      generalize Entries.find? fs p.1 = y at hfind ⊢
      cases hfind with
      | some hsame => exact ⟨_, rfl, hsame⟩

theorem Keyed.nodup {v : Value} (h : v.Keyed) {es : List (String × Value)}
    (hes : v.entries? = some es) : (Entries.keys es).Nodup := by
  cases h with
  | leaf _ hnone => rw [hnone] at hes; cases hes
  | list => cases hes
  | map nd => cases hes; exact nd
  | classOf nd => cases hes; exact nd

theorem Keyed.entry {v : Value} (h : v.Keyed) {es : List (String × Value)}
    (hes : v.entries? = some es) {p : String × Value} (hp : p ∈ es) : p.2.Keyed := by
  cases h with
  | leaf _ hnone => rw [hnone] at hes; cases hes
  | list => cases hes
  | map _ hall => cases hes; exact hall p hp
  | classOf _ hall => cases hes; exact hall p hp

theorem Keyed.item {v : Value} (h : v.Keyed) {vs : List Value} (hvs : v.items? = some vs)
    {x : Value} (hx : x ∈ vs) : x.Keyed := by
  cases h with
  | leaf hnone => rw [hnone] at hvs; cases hvs
  | list hall => cases hvs; exact hall x hx
  | map => cases hvs
  | classOf => cases hvs

/-- Equal values whose keys are distinct at every depth. -/
structure Twins (v w : Value) : Prop where
  left : v.Keyed
  right : w.Keyed
  same : v.Same w

/-- Equality one level deep: leaves other than floats are the same, and tables hold equal values under
every key. -/
inductive Like : Value → Value → Prop where
  | leaf {v : Value} : v.items? = none → v.entries? = none → v.Same v → Like v v
  | float {a b : Double} : a.same b = true → Like (.float a) (.float b)
  | list {vs ws : List Value} : List.Forall₂ Twins vs ws → Like (.list vs) (.list ws)
  | map {es fs : List (String × Value)} : Entries.Like Twins es fs → Like (.map es) (.map fs)
  | classOf {name : String} {es fs : List (String × Value)} : Entries.Like Twins es fs →
      Like (.classOf name es) (.classOf name fs)

theorem twins_items {vs ws : List Value} (hvs : ∀ v ∈ vs, Keyed v) (hws : ∀ w ∈ ws, Keyed w)
    (h : List.Forall₂ Same vs ws) : List.Forall₂ Twins vs ws := by
  induction h with
  | nil => exact .nil
  | cons hvw _ ih =>
    rw [List.forall_mem_cons] at hvs hws
    exact .cons ⟨hvs.1, hws.1, hvw⟩ (ih hvs.2 hws.2)

theorem twins_entries {es fs : List (String × Value)} (hes : ∀ p ∈ es, Keyed p.2)
    (hfs : ∀ p ∈ fs, Keyed p.2) (h : Entries.Like Same es fs) : Entries.Like Twins es fs := by
  refine ⟨h.left, h.right, fun key => ?_⟩
  have hfind := h.find key
  cases hx : Entries.find? es key <;> cases hy : Entries.find? fs key <;> rw [hx, hy] at hfind <;>
    cases hfind
  · exact .none
  · next hsame =>
    exact .some ⟨hes _ (Entries.mem_of_find?_eq_some hx), hfs _ (Entries.mem_of_find?_eq_some hy),
      hsame⟩

/-- Equal values are equal one level deep, and their parts are equal values again. -/
theorem Twins.like {v w : Value} (h : v.Twins w) : v.Like w := by
  obtain ⟨hv, hw, h⟩ := h
  unfold Same at h
  cases v <;> cases w <;> simp only [Value.same, Bool.false_eq_true] at h
  case null => exact .leaf rfl rfl rfl
  case bool a b =>
    rw [beq_iff_eq.1 h]
    exact .leaf rfl rfl (beq_self_eq_true b)
  case int a b =>
    rw [beq_iff_eq.1 h]
    exact .leaf rfl rfl (beq_self_eq_true b)
  case float a b => exact .float h
  case text a b =>
    rw [beq_iff_eq.1 h]
    exact .leaf rfl rfl (beq_self_eq_true b)
  case list vs ws =>
    exact .list (twins_items (fun _ => hv.item rfl) (fun _ => hw.item rfl) (sameItems_iff.1 h))
  case map es fs =>
    exact .map (twins_entries (fun _ => hv.entry rfl) (fun _ => hw.entry rfl)
      ((sameTable_iff (hv.nodup rfl) (hw.nodup rfl)).1 h))
  case classOf a es b fs =>
    obtain ⟨hname, htable⟩ := Bool.and_eq_true_iff.1 h
    obtain rfl := beq_iff_eq.1 hname
    exact .classOf (twins_entries (fun _ => hv.entry rfl) (fun _ => hw.entry rfl)
      ((sameTable_iff (hv.nodup rfl) (hw.nodup rfl)).1 htable))
  case enumOf a x b y =>
    obtain ⟨hname, hvariant⟩ := Bool.and_eq_true_iff.1 h
    rw [beq_iff_eq.1 hname, beq_iff_eq.1 hvariant]
    exact .leaf rfl rfl (by simp [Same, Value.same])
  case media a b =>
    rw [eq_of_beq h]
    exact .leaf rfl rfl (by simp [Same, Value.same])

/-! ### What equal values have in common -/

section

variable {v w : Value}

theorem Like.describe_eq (h : v.Like w) : v.describe = w.describe := by
  cases h with
  | leaf => rfl
  | float h => exact Double.text_eq_of_same h
  | list => rfl
  | map => rfl
  | classOf => rfl

theorem Like.isNull_eq (h : v.Like w) : v.isNull = w.isNull := by
  cases h <;> rfl

theorem Like.variantName?_eq (h : v.Like w) : v.variantName? = w.variantName? := by
  cases h <;> rfl

theorem Like.items (h : v.Like w) : (v.items? = none ∧ w.items? = none) ∨
    ∃ vs ws, v.items? = some vs ∧ w.items? = some ws ∧ List.Forall₂ Twins vs ws := by
  cases h with
  | leaf hitems => exact .inl ⟨hitems, hitems⟩
  | list h => exact .inr ⟨_, _, rfl, rfl, h⟩
  | float | map | classOf => exact .inl ⟨rfl, rfl⟩

theorem Like.entries (h : v.Like w) : (v.entries? = none ∧ w.entries? = none) ∨
    ∃ es fs, v.entries? = some es ∧ w.entries? = some fs ∧ Entries.Like Twins es fs := by
  cases h with
  | leaf _ hentries => exact .inl ⟨hentries, hentries⟩
  | map h => exact .inr ⟨_, _, rfl, rfl, h⟩
  | classOf h => exact .inr ⟨_, _, rfl, rfl, h⟩
  | float | list => exact .inl ⟨rfl, rfl⟩

end

end Value

/-- The value of a field is looked up in tables that agree. -/
theorem Name.lookup_of_like {β : Type} {R : β → β → Prop} {es fs : List (String × β)}
    (h : Entries.Like R es fs) (n : Name) : Option.Rel R (n.lookup? es) (n.lookup? fs) := by
  refine rel_or (h.find n.real) ?_
  cases n.shown with
  | none => exact .none
  | some shown => exact h.find shown

end ShapeSchema
