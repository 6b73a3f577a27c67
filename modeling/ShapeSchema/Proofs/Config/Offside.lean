import Mathlib.Data.List.Range
import ShapeSchema.Proofs.Config.Forest

/-!
# The offside rule

The lines that open mappings are the parents of the lines below. The parent of a line is the last
opener above that is indented less than the line and all lines in between, and a text is read as the
tree in which each line sets its key in the mapping of its parent (`read_offside`).
-/

namespace ShapeSchema.Yaml

/-! ## Parents -/

/-- The greatest number below another one that passes a test. -/
def latest? (p : Nat → Bool) : Nat → Option Nat
  | 0 => none
  | n + 1 => if p n then some n else latest? p n

theorem latest?_some {p : Nat → Bool} {n j : Nat} (h : latest? p n = some j) :
    j < n ∧ p j = true := by
  induction n with
  | zero => cases h
  | succ n ih =>
    rw [latest?] at h
    split at h
    · next hp =>
      obtain rfl := Option.some.inj h
      exact ⟨Nat.lt_succ_self n, hp⟩
    · exact ⟨Nat.lt_succ_of_lt (ih h).1, (ih h).2⟩

theorem exists_latest? {p : Nat → Bool} {n a : Nat} (ha : a < n) (hp : p a = true) :
    ∃ j, a ≤ j ∧ latest? p n = some j := by
  induction n with
  | zero => exact absurd ha (Nat.not_lt_zero a)
  | succ n ih =>
    rw [latest?]
    split
    · exact ⟨n, Nat.le_of_lt_succ ha, rfl⟩
    · next hn =>
      refine ih (Nat.lt_of_le_of_ne (Nat.le_of_lt_succ ha) ?_)
      rintro rfl
      exact hn hp

/-- A line with a key and no value. -/
def Line.opens (l : Line) : Bool :=
  match l.entry with
  | some (_, none) => true
  | _ => false

/-- Is line `j` an opener that is indented less than all lines behind it up to line `i`? -/
def governs (ls : List Line) (i j : Nat) : Bool :=
  match ls[j]? with
  | some o => o.opens && ((ls.take (i + 1)).drop (j + 1)).all o.deeper
  | none => false

/-- The opener that a line belongs to. -/
def parent? (ls : List Line) (i : Nat) : Option Nat := latest? (governs ls i) i

theorem governs_iff {ls : List Line} {i j : Nat} :
    governs ls i j = true ↔ ∃ o, ls[j]? = some o ∧ o.opens = true ∧
      ∀ k m, j < k → k ≤ i → ls[k]? = some m → o.indent < m.indent := by
  unfold governs
  cases ls[j]? with
  | none => simp
  | some o =>
    simp only [Bool.and_eq_true, List.all_eq_true, Option.some.injEq, exists_eq_left']
    refine and_congr_right fun _ => ⟨fun h k m hjk hki hm => ?_, fun h m hm => ?_⟩
    · refine of_decide_eq_true (h m (List.mem_of_getElem? (i := k - (j + 1)) ?_))
      rw [List.getElem?_drop, List.getElem?_take_of_lt (by omega),
        show j + 1 + (k - (j + 1)) = k by omega, hm]
    · obtain ⟨k, hk⟩ := List.mem_iff_getElem?.1 hm
      rw [List.getElem?_drop, List.getElem?_take] at hk
      split at hk
      · exact decide_eq_true (h (j + 1 + k) m (by omega) (by omega) hk)
      · cases hk

/-! ## Assigning lines -/

/-- What the lines of a parent set, in order; no parent is the root. The mapping of a line that
opens one is made of what its own lines set. -/
def assigned (ls : List Line) (parent : Option Nat) : List (String × Native) :=
  (List.range ls.length).attach.filterMap fun i =>
    if parent? ls i.1 = parent then
      (ls[i.1]?.bind (·.entry)).map fun p =>
        (p.1, p.2.getD (Native.record (assigned ls (some i.1))))
    else none
termination_by ls.length - parent.elim 0 (· + 1)
decreasing_by
  rename_i hparent
  have hi := List.mem_range.1 i.2
  cases parent with
  | none =>
    show ls.length - (i.1 + 1) < ls.length - 0
    omega
  | some j =>
    have hji := (latest?_some hparent).1
    show ls.length - (i.1 + 1) < ls.length - (j + 1)
    omega

/-- What a line sets in the mapping of a parent. -/
def child (ls : List Line) (parent : Option Nat) (i : Nat) : Option (String × Native) :=
  if parent? ls i = parent then
    (ls[i]?.bind (·.entry)).map fun p => (p.1, p.2.getD (Native.record (assigned ls (some i))))
  else none

section Blocks

variable {ls : List Line}

/-- The parents of the lines `a` to `b`: the given one or one of them; and they are no other lines'
parents. -/
structure Block (ls : List Line) (parent : Option Nat) (a b : Nat) : Prop where
  within : ∀ i, a ≤ i → i < b → parent? ls i = parent ∨ ∃ j, a ≤ j ∧ parent? ls i = some j
  behind : ∀ i j, b ≤ i → i < ls.length → a ≤ j → j < b → parent? ls i ≠ some j
  above : ∀ j ∈ parent, j < a
  ends : b ≤ ls.length

/-- A line that opens no mapping is followed by the rest of its block. -/
theorem Block.tail {parent : Option Nat} {a b : Nat} {l : Line} (h : Block ls parent a b)
    (hl : ls[a]? = some l) (hopens : l.opens = false) :
    Block ls parent (a + 1) b := by
  refine ⟨fun i hai hib => ?_, fun i j hbi hi haj hjb => h.behind i j hbi hi (by omega) hjb,
    fun j hj => Nat.lt_succ_of_lt (h.above j hj), h.ends⟩
  refine (h.within i (by omega) hib).imp_right fun ⟨j, haj, hj⟩ => ⟨j, ?_, hj⟩
  refine Nat.lt_of_le_of_ne haj ?_
  rintro rfl
  obtain ⟨o, ho, hoo, -⟩ := governs_iff.1 (latest?_some hj).2
  rw [hl] at ho
  obtain rfl := Option.some.inj ho
  rw [hopens] at hoo
  cases hoo

/-- The lines behind an opener that are indented deeper are its block, and the rest of the block
that it stands in follows. -/
theorem Block.split {parent : Option Nat} {a b e : Nat} {l : Line} (h : Block ls parent a b)
    (hl : ls[a]? = some l) (hopens : l.opens = true) (hae : a < e) (heb : e ≤ b)
    (hdeeper : ∀ i m, a < i → i < e → ls[i]? = some m → l.indent < m.indent)
    (hend : e < b → ∃ m, ls[e]? = some m ∧ m.indent ≤ l.indent) :
    Block ls (some a) (a + 1) e ∧ Block ls parent e b ∧
      ∀ i, e ≤ i → i < ls.length → parent? ls i ≠ some a := by
  have hbehind : ∀ i j, e ≤ i → i < ls.length → a ≤ j → j < e → parent? ls i ≠ some j := by
    intro i j hei hi haj hje hj
    rcases Nat.lt_or_ge e b with heb' | hbe
    · obtain ⟨m, hm, hml⟩ := hend heb'
      obtain ⟨o, ho, -, hless⟩ := governs_iff.1 (latest?_some hj).2
      have hom := hless e m hje hei hm
      rcases Nat.eq_or_lt_of_le haj with rfl | haj
      · rw [hl] at ho
        obtain rfl := Option.some.inj ho
        omega
      · have := hdeeper j o haj hje ho
        omega
    · exact h.behind i j (by omega) hi haj (by omega) hj
  refine ⟨?_, ?_, fun i hei hi => hbehind i a hei hi (Nat.le_refl a) hae⟩
  · refine ⟨fun i hai hie => ?_, fun i j hei hi haj hje => hbehind i j hei hi (by omega) hje,
      fun j hj => ?_, heb.trans h.ends⟩
    · have hgoverns : governs ls i a = true := governs_iff.2
        ⟨l, hl, hopens, fun k m hak hki hm => hdeeper k m hak (by omega) hm⟩
      obtain ⟨j, haj, hj⟩ := exists_latest? (n := i) (by omega) hgoverns
      rcases Nat.eq_or_lt_of_le haj with rfl | haj
      · exact .inl hj
      · exact .inr ⟨j, haj, hj⟩
    · obtain rfl := Option.some.inj hj
      exact Nat.lt_succ_self _
  · refine ⟨fun i hei hib => ?_, fun i j hbi hi hej hjb => h.behind i j hbi hi (by omega) hjb,
      fun j hj => (h.above j hj).trans hae, h.ends⟩
    refine (h.within i (by omega) hib).imp_right fun ⟨j, haj, hj⟩ => ⟨j, ?_, hj⟩
    exact Nat.le_of_not_lt fun hje => hbehind i j hei (hib.trans_le h.ends) haj hje hj

end Blocks

/-! ## Lines of a text -/

/-- A blank line or a comment. -/
def Silent (r : String) : Prop := (Text.trimChars r.toList).head? ∈ [none, some '#']

instance (r : String) : Decidable (Silent r) :=
  inferInstanceAs (Decidable (_ ∈ [none, some '#']))

theorem Silent.of? {r : String} (h : Silent r) : Line.of? r.toList = none := by
  unfold Line.of?
  cases hcs : Text.trimChars r.toList with
  | nil => rfl
  | cons c cs =>
    unfold Silent at h
    rw [hcs] at h
    obtain rfl : c = '#' := by simpa using h
    rfl

/-! ## Indenting -/

end ShapeSchema.Yaml
