import Mathlib.Data.List.Basic
import Mathlib.Tactic.IntervalCases
import ShapeSchema.Proofs.Text.Words
import ShapeSchema.Text.Quoted

/-!
# Written data

The texts that data are written as, without numbers, maps and sets: `null`, truth values, quoted
texts, arrays and objects. No such text is the beginning of another one (`Written.prefixFree`), so
the items of an array and the members of an object can be told from their text.
-/

namespace ShapeSchema.Text

/-! ## Quoted texts -/

/-- The character that an escaped text starts with, and the rest. -/
def unescape : List Char → Option (Char × List Char)
  | '\\' :: '"' :: r => some ('"', r)
  | '\\' :: '\\' :: r => some ('\\', r)
  | '\\' :: 'b' :: r => some (Char.ofNat 8, r)
  | '\\' :: 't' :: r => some (Char.ofNat 9, r)
  | '\\' :: 'n' :: r => some (Char.ofNat 10, r)
  | '\\' :: 'f' :: r => some (Char.ofNat 12, r)
  | '\\' :: 'r' :: r => some (Char.ofNat 13, r)
  | '\\' :: 'u' :: '0' :: '0' :: h :: l :: r =>
    (List.range 32).findSome? fun n =>
      if hexDigit (n / 16) = h ∧ hexDigit (n % 16) = l then some (Char.ofNat n, r) else none
  | c :: r => some (c, r)
  | [] => none

theorem unescape_escape_control (n : Nat) (h : n < 32) (r : List Char) :
    unescape (escape (Char.ofNat n) ++ r) = some (Char.ofNat n, r) := by
  interval_cases n <;> rfl

theorem unescape_escape (c : Char) (r : List Char) : unescape (escape c ++ r) = some (c, r) := by
  by_cases h : c.toNat < 32
  · have hc : c = Char.ofNat c.toNat := (Char.ofNat_toNat c).symm
    rw [hc]
    exact unescape_escape_control _ h r
  · unfold escape
    by_cases hq : c = '"'
    · subst hq
      rfl
    by_cases hb : c = '\\'
    · subst hb
      rfl
    rw [if_neg hq, if_neg hb, if_neg h]
    show unescape (c :: r) = some (c, r)
    unfold unescape
    split <;> simp_all

theorem escape_ne_nil (c : Char) : ∃ d ds, escape c = d :: ds ∧ d ≠ '"' := by
  unfold escape
  split
  · exact ⟨_, _, rfl, by decide⟩
  · next hq =>
    split
    · exact ⟨_, _, rfl, by decide⟩
    · split
      · split <;> exact ⟨_, _, rfl, by decide⟩
      · exact ⟨c, [], rfl, hq⟩

theorem escaped_unique (cs ds r s : List Char)
    (h : cs.flatMap escape ++ '"' :: r = ds.flatMap escape ++ '"' :: s) : cs = ds ∧ r = s := by
  refine flatMap_unique escape_ne_nil (fun c d r s h => ?_) h
  have hu := congrArg unescape h
  rw [unescape_escape, unescape_escape] at hu
  exact Prod.mk.inj (Option.some.inj hu)

theorem quotedChars_unique (cs ds r s : List Char)
    (h : quotedChars cs ++ r = quotedChars ds ++ s) : cs = ds ∧ r = s := by
  unfold quotedChars at h
  refine escaped_unique cs ds r s ?_
  simpa using h

/-! ## Texts of data -/

/-- Texts with commas between them. -/
def separated : List (List Char) → List Char
  | [] => []
  | t :: ts => t ++ ts.flatMap (',' :: ·)

theorem toList_intercalate_comma (ts : List String) :
    (",".intercalate ts).toList = separated (ts.map String.toList) := by
  rw [String.toList_intercalate]
  cases ts with
  | nil => rfl
  | cons t ts =>
    induction ts generalizing t with
    | nil => simp [separated]
    | cons u ts ih =>
      have := ih u
      simp only [List.map_cons, separated, List.flatMap_cons] at this ⊢
      rw [List.intercalate_cons_cons, this]
      simp

/-- Text of a member of an object. -/
def member (p : List Char × List Char) : List Char := quotedChars p.1 ++ ':' :: p.2

/-- The texts that data without numbers, maps and sets are written as. -/
inductive Written : List Char → Prop
  | null : Written "null".toList
  | true : Written "true".toList
  | false : Written "false".toList
  | quoted (cs : List Char) : Written (quotedChars cs)
  | array (ts : List (List Char)) : (∀ t ∈ ts, Written t) → Written ('[' :: separated ts ++ [']'])
  | object (ps : List (List Char × List Char)) : (∀ p ∈ ps, Written p.2) →
      Written ('\x7b' :: separated (ps.map member) ++ ['\x7d'])

/-- No text of a class is the beginning of another one. -/
def PrefixFreeAt (C : List Char → Prop) (t : List Char) : Prop :=
  ∀ u, C u → ∀ r s, t ++ r = u ++ s → t = u ∧ r = s

theorem separated_tail_unique {C : List Char → Prop} {close : Char} (hc : close ≠ ',')
    (ts us : List (List Char)) (ht : ∀ t ∈ ts, PrefixFreeAt C t) (hu : ∀ u ∈ us, C u)
    (r s : List Char)
    (h : ts.flatMap (',' :: ·) ++ close :: r = us.flatMap (',' :: ·) ++ close :: s) :
    ts = us ∧ r = s := by
  induction ts generalizing us with
  | nil =>
    cases us with
    | nil => exact ⟨rfl, (List.cons.inj h).2⟩
    | cons u us => exact absurd (List.cons.inj h).1 hc
  | cons t ts ih =>
    cases us with
    | nil => exact absurd (List.cons.inj h).1.symm hc
    | cons u us =>
      simp only [List.flatMap_cons, List.cons_append, List.append_assoc, List.cons.injEq,
        true_and] at h
      obtain ⟨rfl, hrest⟩ := ht t List.mem_cons_self u (hu u List.mem_cons_self) _ _ h
      obtain ⟨rfl, rfl⟩ := ih us (fun v hv => ht v (List.mem_cons_of_mem _ hv))
        (fun v hv => hu v (List.mem_cons_of_mem _ hv)) hrest
      exact ⟨rfl, rfl⟩

theorem separated_unique {C : List Char → Prop} {close : Char} (hc : close ≠ ',')
    (hclose : ∀ u, C u → ∀ r s, close :: r ≠ u ++ s) (ts us : List (List Char))
    (hts : ∀ t ∈ ts, C t ∧ PrefixFreeAt C t) (hus : ∀ u ∈ us, C u) (r s : List Char)
    (h : separated ts ++ close :: r = separated us ++ close :: s) : ts = us ∧ r = s := by
  cases ts with
  | nil =>
    cases us with
    | nil => exact ⟨rfl, (List.cons.inj h).2⟩
    | cons u us =>
      rw [separated, separated, List.nil_append, List.append_assoc] at h
      exact absurd h (hclose u (hus u List.mem_cons_self) _ _)
  | cons t ts =>
    cases us with
    | nil =>
      rw [separated, separated, List.nil_append, List.append_assoc] at h
      exact absurd h.symm (hclose t (hts t List.mem_cons_self).1 _ _)
    | cons u us =>
      rw [separated, separated, List.append_assoc, List.append_assoc] at h
      obtain ⟨rfl, hrest⟩ :=
        (hts t List.mem_cons_self).2 u (hus u List.mem_cons_self) _ _ h
      obtain ⟨rfl, rfl⟩ := separated_tail_unique hc ts us
        (fun v hv => (hts v (List.mem_cons_of_mem _ hv)).2)
        (fun v hv => hus v (List.mem_cons_of_mem _ hv)) r s hrest
      exact ⟨rfl, rfl⟩

/-- Text of a member whose value is written data. -/
def WrittenMember (t : List Char) : Prop := ∃ q, Written q.2 ∧ t = member q

theorem member_unique {p : List Char × List Char} (h : PrefixFreeAt Written p.2) :
    PrefixFreeAt WrittenMember (member p) := by
  rintro _ ⟨q, hq, rfl⟩ r s he
  unfold member at he
  rw [List.append_assoc, List.append_assoc] at he
  obtain ⟨hk, hv⟩ := quotedChars_unique _ _ _ _ he
  obtain ⟨hval, rfl⟩ := h q.2 hq _ _ (List.cons.inj hv).2
  exact ⟨congrArg member (Prod.ext hk hval), rfl⟩

theorem member_injective {p q : List Char × List Char} (h : member p = member q) : p = q := by
  unfold member at h
  obtain ⟨hk, hv⟩ := quotedChars_unique _ _ _ _ h
  exact Prod.ext hk (List.cons.inj hv).2

theorem Written.ne_close {u : List Char} (h : Written u) (close : Char)
    (hc : close = ']' ∨ close = '\x7d') (r s : List Char) : close :: r ≠ u ++ s := by
  rcases hc with rfl | rfl <;> cases h <;> simp [quotedChars]

theorem WrittenMember.ne_close {u : List Char} (h : WrittenMember u) (r s : List Char) :
    '\x7d' :: r ≠ u ++ s := by
  obtain ⟨q, -, rfl⟩ := h
  simp [member, quotedChars]

theorem array_unique {ts us : List (List Char)} (ht : ∀ t ∈ ts, Written t)
    (hf : ∀ t ∈ ts, PrefixFreeAt Written t) (hu : ∀ u ∈ us, Written u) (r s : List Char)
    (h : '[' :: separated ts ++ [']'] ++ r = '[' :: separated us ++ [']'] ++ s) : ts = us ∧ r = s := by
  refine separated_unique (by decide) (fun u hu r s => hu.ne_close _ (.inl rfl) r s)
    ts us (fun t h => ⟨ht t h, hf t h⟩) hu r s ?_
  simpa using h

theorem object_unique {ps qs : List (List Char × List Char)} (hp : ∀ p ∈ ps, Written p.2)
    (hf : ∀ p ∈ ps, PrefixFreeAt Written p.2) (hq : ∀ q ∈ qs, Written q.2) (r s : List Char)
    (h : '\x7b' :: separated (ps.map member) ++ ['\x7d'] ++ r
      = '\x7b' :: separated (qs.map member) ++ ['\x7d'] ++ s) : ps = qs ∧ r = s := by
  have hps : ∀ t ∈ ps.map member, WrittenMember t ∧ PrefixFreeAt WrittenMember t := by
    intro t ht
    obtain ⟨p, hp', rfl⟩ := List.mem_map.1 ht
    exact ⟨⟨p, hp p hp', rfl⟩, member_unique (hf p hp')⟩
  have hqs : ∀ u ∈ qs.map member, WrittenMember u := by
    intro u hu
    obtain ⟨q, hq', rfl⟩ := List.mem_map.1 hu
    exact ⟨q, hq q hq', rfl⟩
  have hrs := separated_unique (by decide) (fun u hu r s => hu.ne_close r s)
    _ _ hps hqs r s (by simpa using h)
  exact ⟨List.map_injective_iff.2 (fun p q => member_injective) hrs.1, hrs.2⟩

/-- No written data is the beginning of other written data. -/
theorem Written.prefixFree {t : List Char} (ht : Written t) : PrefixFreeAt Written t := by
  induction ht with
  | null => rintro u hu r s h; cases hu <;> simp_all [quotedChars]
  | true => rintro u hu r s h; cases hu <;> simp_all [quotedChars]
  | false => rintro u hu r s h; cases hu <;> simp_all [quotedChars]
  | quoted cs =>
    rintro u hu r s h
    cases hu with
    | quoted ds =>
      obtain ⟨rfl, rfl⟩ := quotedChars_unique cs ds r s h
      exact ⟨rfl, rfl⟩
    | _ => simp [quotedChars] at h
  | array ts hts ih =>
    rintro u hu r s h
    cases hu with
    | array us hus =>
      obtain ⟨rfl, rfl⟩ := array_unique hts ih hus r s h
      exact ⟨rfl, rfl⟩
    | _ => simp [quotedChars] at h
  | object ps hps ih =>
    rintro u hu r s h
    cases hu with
    | object qs hqs =>
      obtain ⟨rfl, rfl⟩ := object_unique hps ih hqs r s h
      exact ⟨rfl, rfl⟩
    | _ => simp [quotedChars] at h

/-- The items of an array can be told from its text. -/
theorem array_injective {ts us : List (List Char)} (ht : ∀ t ∈ ts, Written t)
    (hu : ∀ u ∈ us, Written u) (h : '[' :: separated ts ++ [']'] = '[' :: separated us ++ [']']) :
    ts = us :=
  (array_unique ht (fun t h => (ht t h).prefixFree) hu [] [] (by rw [h])).1

/-- The members of an object can be told from its text. -/
theorem object_injective {ps qs : List (List Char × List Char)} (hp : ∀ p ∈ ps, Written p.2)
    (hq : ∀ q ∈ qs, Written q.2)
    (h : '\x7b' :: separated (ps.map member) ++ ['\x7d']
      = '\x7b' :: separated (qs.map member) ++ ['\x7d']) : ps = qs :=
  (object_unique hp (fun p h => (hp p h).prefixFree) hq [] [] (by rw [h])).1

end ShapeSchema.Text
