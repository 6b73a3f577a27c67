import ShapeSchema.Proofs.Decimal.Distinct
import ShapeSchema.Proofs.Text.Words
import ShapeSchema.Value.Path

/-!
# Texts of paths

A path can be told from its text (`Path.eq_of_sameText`) if its fields have identifiers as names: a
segment ends where the next one starts with a dot or a bracket, and inside a key both quotes and
backslashes are escaped, so that no key imitates further segments.
-/

namespace ShapeSchema

/-! ## Segments -/

namespace Segment

/-- A field named by an identifier, a natural number or a key. A natural number is an index below
`2^52` and a position from there on. -/
def Regular : Segment → Prop
  | .field name => name ≠ "" ∧ ∀ c ∈ name.toList, Text.isWordChar c = true
  | .index i => i < Double.exponentWeight
  | .position d => ∃ n : Nat, Double.exponentWeight ≤ n ∧ d.toInt? = some (n : Int)
  | .key _ => True

/-- The number of a segment in brackets. -/
def number? : Segment → Option Double
  | .index i => some (.ofInt i)
  | .position d => some d
  | _ => none

/-- A natural number makes a regular segment. -/
theorem regular_ofNumber {d : Double} {n : Nat} (h : d.toInt? = some (n : Int)) :
    (Segment.ofNumber d).Regular := by
  unfold ofNumber
  rw [h]
  show (if n < Double.exponentWeight then Segment.index n else .position d).Regular
  split
  · next hn => exact hn
  · next hn => exact ⟨n, Nat.not_lt.1 hn, h⟩

theorem unsigned_of_toInt {d : Double} {n : Nat} (hn : n ≠ 0) (h : d.toInt? = some (n : Int)) :
    d.Unsigned := by
  unfold Double.toInt? at h
  split at h
  · cases h
  · next hf =>
    refine ⟨by simpa using hf, ?_⟩
    by_contra hneg
    rw [Bool.not_eq_false] at hneg
    simp only [hneg, if_true] at h
    split at h
    · have h := Option.some.inj h
      have := Int.natCast_nonneg (d.mantissa * Nat.pow 2 d.exponent.toNat)
      omega
    · split at h
      · have h := Option.some.inj h
        have := Int.natCast_nonneg (d.mantissa / Nat.pow 2 d.exponent.natAbs)
        omega
      · cases h

theorem Regular.index_lt {i : Nat} (h : (index i).Regular) :
    (i : Int).natAbs < Double.exponentWeight := h

theorem unsigned_ofInt {i : Nat} (h : i < Double.exponentWeight) : (Double.ofInt i).Unsigned := by
  by_cases hi : i = 0
  · subst hi
    exact ⟨rfl, rfl⟩
  · exact unsigned_of_toInt hi (Double.toInt_ofInt (by omega))

theorem Regular.unsigned {s : Segment} (h : s.Regular) {d : Double} (hd : s.number? = some d) :
    d.Unsigned := by
  cases s with
  | field name => cases hd
  | key k => cases hd
  | index i =>
    obtain rfl := Option.some.inj hd
    exact unsigned_ofInt h
  | position e =>
    obtain rfl := Option.some.inj hd
    obtain ⟨n, hn, hd⟩ := h
    exact unsigned_of_toInt (by unfold Double.exponentWeight at hn; omega) hd

/-- A natural number has one segment. -/
theorem Regular.eq_of_number {s t : Segment} (hs : s.Regular) (ht : t.Regular) {d : Double}
    (hsd : s.number? = some d) (htd : t.number? = some d) : s = t := by
  have apart {i : Nat} (hi : Regular (.index i)) : ¬ Regular (.position (.ofInt i)) := by
    rintro ⟨n, hn, h⟩
    rw [Double.toInt_ofInt hi.index_lt] at h
    have := Option.some.inj h
    have := hi.index_lt
    omega
  cases s with
  | field name => cases hsd
  | key k => cases hsd
  | index i =>
    obtain rfl := Option.some.inj hsd
    cases t with
    | field name => cases htd
    | key k => cases htd
    | index j =>
      have hi := Double.toInt_ofInt hs.index_lt
      rw [← Option.some.inj htd, Double.toInt_ofInt ht.index_lt] at hi
      have := Option.some.inj hi
      rw [show i = j by omega]
    | position e =>
      obtain rfl := Option.some.inj htd
      exact absurd ht (apart hs)
  | position e =>
    obtain rfl := Option.some.inj hsd
    cases t with
    | field name => cases htd
    | key k => cases htd
    | index j =>
      have hj : Double.ofInt j = e := Option.some.inj htd
      rw [← hj] at hs
      exact absurd hs (apart ht)
    | position e' => rw [Option.some.inj htd]

/-! ## Their texts -/

/-- A character of a key: a backslash or a quote follows a backslash. -/
def escapeKey (c : Char) : List Char := if c = '\\' ∨ c = '"' then ['\\', c] else [c]

/-- The text of a segment behind another one. -/
def chars : Segment → List Char
  | .field name => '.' :: name.toList
  | .index i => '[' :: (toString i).toList ++ [']']
  | .position d => '[' :: d.text.toList ++ [']']
  | .key k => '[' :: '"' :: k.toList.flatMap escapeKey ++ ['"', ']']

/-- The text of a segment at the root. -/
def headChars : Segment → List Char
  | .field name => name.toList
  | s => s.chars

/-- What can follow a segment: nothing or another segment. -/
def Follows (cs : List Char) : Prop := ∀ c ∈ cs.head?, c = '.' ∨ c = '['

theorem follows_flatMap (ss : List Segment) : Follows (ss.flatMap chars) := by
  cases ss with
  | nil => simp [Follows]
  | cons s ss =>
    cases s <;> simp [Follows, chars]

theorem Follows.not_word {cs : List Char} (h : Follows cs) :
    ∀ c ∈ cs.head?, Text.isWordChar c = false := by
  intro c hc
  rcases h c hc with rfl | rfl <;> decide

theorem Regular.chars_number {s : Segment} (h : s.Regular) {d : Double} (hd : s.number? = some d) :
    s.chars = '[' :: d.text.toList ++ [']'] := by
  cases s with
  | field name => cases hd
  | key k => cases hd
  | index i =>
    obtain rfl := Option.some.inj hd
    rw [Double.text_ofInt h.index_lt]
    rfl
  | position e =>
    obtain rfl := Option.some.inj hd
    rfl

theorem escapeKey_unique (c d : Char) (r s : List Char)
    (h : escapeKey c ++ r = escapeKey d ++ s) : c = d ∧ r = s := by
  unfold escapeKey at h
  split at h <;> split at h
  · simpa using h
  · next hd =>
    obtain ⟨rfl, -⟩ := List.cons.inj h
    exact absurd (.inl rfl) hd
  · next hc _ =>
    obtain ⟨rfl, -⟩ := List.cons.inj h
    exact absurd (.inl rfl) hc
  · simpa using h

theorem escapeKey_ne_quote (c : Char) : ∃ d ds, escapeKey c = d :: ds ∧ d ≠ '"' := by
  unfold escapeKey
  split
  · exact ⟨_, _, rfl, by decide⟩
  · next h => exact ⟨_, _, rfl, fun hq => h (.inr hq)⟩

/-- The text of a number in brackets ends at the closing bracket. -/
theorem number_unique {d e : Double} (hd : d.Unsigned) (he : e.Unsigned) {r r' : List Char}
    (h : d.text.toList ++ ']' :: r = e.text.toList ++ ']' :: r') : d = e ∧ r = r' := by
  have hchars {d : Double} (hd : d.Unsigned) : ∀ c ∈ d.text.toList, (c != ']') = true := by
    intro c hc
    rw [bne_iff_ne]
    rintro rfl
    rcases hd.mem_text hc with hc | hc | hc | hc | hc <;> revert hc <;> decide
  obtain ⟨htext, hrest⟩ := Text.append_unique (hchars hd) (hchars he) (by simp) (by simp) h
  exact ⟨hd.eq_of_text he (String.toList_inj.1 htext), (List.cons.inj hrest).2⟩

theorem number_ne_quote {d : Double} (hd : d.Unsigned) (r r' : List Char) :
    d.text.toList ++ ']' :: r ≠ '"' :: r' := by
  intro h
  cases hcs : d.text.toList with
  | nil =>
    rw [hcs] at h
    exact absurd (List.cons.inj h).1 (by decide)
  | cons c cs =>
    rw [hcs] at h
    obtain ⟨rfl, -⟩ := List.cons.inj h
    have hc := hd.mem_text (hcs ▸ List.mem_cons_self)
    revert hc
    decide

/-- Text in brackets is that of one segment only. -/
theorem bracket_unique {s t : Segment} (hs : s.Regular) (ht : t.Regular) {cs ds r r' : List Char}
    (hcs : s.chars = '[' :: cs) (hds : t.chars = '[' :: ds) (h : cs ++ r = ds ++ r') :
    s = t ∧ r = r' := by
  have kinds (s : Segment) : (∃ d, s.number? = some d) ∨ (∃ k, s = .key k) ∨ ∃ n, s = .field n := by
    cases s <;> simp [number?]
  rcases kinds s with ⟨d, hd⟩ | ⟨k, rfl⟩ | ⟨n, rfl⟩
  · have hd' := (hs.chars_number hd).symm.trans hcs
    obtain rfl := (List.cons.inj hd').2
    rcases kinds t with ⟨e, he⟩ | ⟨k, rfl⟩ | ⟨n, rfl⟩
    · have he' := (ht.chars_number he).symm.trans hds
      obtain rfl := (List.cons.inj he').2
      obtain ⟨rfl, hrest⟩ := number_unique (hs.unsigned hd) (ht.unsigned he) (by simpa using h)
      exact ⟨hs.eq_of_number ht hd he, hrest⟩
    · obtain rfl := (List.cons.inj hds).2
      exact absurd (by simpa using h) (number_ne_quote (hs.unsigned hd) r _)
    · exact absurd (List.cons.inj hds).1 (by decide)
  · obtain rfl := (List.cons.inj hcs).2
    rcases kinds t with ⟨e, he⟩ | ⟨k', rfl⟩ | ⟨n, rfl⟩
    · have he' := (ht.chars_number he).symm.trans hds
      obtain rfl := (List.cons.inj he').2
      exact absurd (by simpa using h.symm) (number_ne_quote (ht.unsigned he) r' _)
    · obtain rfl := (List.cons.inj hds).2
      have h : k.toList.flatMap escapeKey ++ '"' :: ']' :: r =
          k'.toList.flatMap escapeKey ++ '"' :: ']' :: r' := by simpa using h
      obtain ⟨hk, hrest⟩ := Text.flatMap_unique escapeKey_ne_quote escapeKey_unique h
      exact ⟨congrArg Segment.key (String.toList_inj.1 hk), (List.cons.inj hrest).2⟩
    · exact absurd (List.cons.inj hds).1 (by decide)
  · exact absurd (List.cons.inj hcs).1 (by decide)

/-- A segment is a field, or its text is in brackets wherever it stands. -/
theorem shape (s : Segment) :
    (∃ n, s = .field n) ∨ ∃ cs, s.chars = '[' :: cs ∧ s.headChars = '[' :: cs := by
  cases s with
  | field n => exact .inl ⟨n, rfl⟩
  | index i => exact .inr ⟨_, rfl, rfl⟩
  | position d => exact .inr ⟨_, rfl, rfl⟩
  | key k => exact .inr ⟨_, rfl, rfl⟩

/-- A segment behind another one ends where the next one starts. -/
theorem chars_unique {s t : Segment} (hs : s.Regular) (ht : t.Regular) {r r' : List Char}
    (hr : Follows r) (hr' : Follows r') (h : s.chars ++ r = t.chars ++ r') : s = t ∧ r = r' := by
  rcases s.shape with ⟨n, rfl⟩ | ⟨cs, hcs, -⟩ <;> rcases t.shape with ⟨m, rfl⟩ | ⟨ds, hds, -⟩
  · obtain ⟨hname, hrest⟩ := Text.append_unique hs.2 ht.2 hr.not_word hr'.not_word
      (List.cons.inj h).2
    exact ⟨congrArg Segment.field (String.toList_inj.1 hname), hrest⟩
  · rw [hds] at h
    exact absurd (List.cons.inj h).1 (by decide)
  · rw [hcs] at h
    exact absurd (List.cons.inj h).1 (by decide)
  · rw [hcs, hds] at h
    exact bracket_unique hs ht hcs hds (List.cons.inj h).2

/-- A segment at the root ends where the next one starts. -/
theorem headChars_unique {s t : Segment} (hs : s.Regular) (ht : t.Regular) {r r' : List Char}
    (hr : Follows r) (hr' : Follows r') (h : s.headChars ++ r = t.headChars ++ r') :
    s = t ∧ r = r' := by
  have field_ne {n : String} {cs r r' : List Char} (hn : (field n).Regular) :
      n.toList ++ r ≠ '[' :: cs ++ r' := by
    intro h
    cases hchars : n.toList with
    | nil => exact hn.1 (String.toList_inj.1 hchars)
    | cons c rest =>
      rw [hchars] at h
      exact Text.ne_of_isWordChar (hn.2 c (hchars ▸ List.mem_cons_self)) (by decide)
        (List.cons.inj h).1
  rcases s.shape with ⟨n, rfl⟩ | ⟨cs, hcs, hcs'⟩ <;> rcases t.shape with ⟨m, rfl⟩ | ⟨ds, hds, hds'⟩
  · obtain ⟨hname, hrest⟩ := Text.append_unique hs.2 ht.2 hr.not_word hr'.not_word h
    exact ⟨congrArg Segment.field (String.toList_inj.1 hname), hrest⟩
  · rw [hds'] at h
    exact absurd h (field_ne hs)
  · rw [hcs'] at h
    exact absurd h.symm (field_ne ht)
  · rw [hcs', hds'] at h
    exact bracket_unique hs ht hcs hds (List.cons.inj h).2

theorem flatMap_chars_unique {ss ts : List Segment} (hs : ∀ s ∈ ss, s.Regular)
    (ht : ∀ t ∈ ts, t.Regular) (h : ss.flatMap chars = ts.flatMap chars) : ss = ts := by
  have chars_ne (s : Segment) : s.chars ≠ [] := by cases s <;> simp [chars]
  induction ss generalizing ts with
  | nil =>
    cases ts with
    | nil => rfl
    | cons t ts => simp [chars_ne] at h
  | cons s ss ih =>
    cases ts with
    | nil => simp [chars_ne] at h
    | cons t ts =>
      rw [List.flatMap_cons, List.flatMap_cons] at h
      rw [List.forall_mem_cons] at hs ht
      obtain ⟨rfl, hrest⟩ := chars_unique hs.1 ht.1 (follows_flatMap ss) (follows_flatMap ts) h
      rw [ih hs.2 ht.2 hrest]

end Segment

/-! ## Paths -/

namespace Path

theorem toList_escapedKey (k : String) :
    (escapedKey k).toList = k.toList.flatMap Segment.escapeKey := String.toList_ofList

theorem toList_continueText {out : String} (ho : out ≠ "") (s : Segment) :
    (continueText out s).toList = out.toList ++ s.chars := by
  cases s <;> simp [continueText, Segment.chars, ho, toList_escapedKey]

theorem toList_continueText_empty (s : Segment) :
    (continueText "" s).toList = s.headChars := by
  cases s <;> simp [continueText, Segment.headChars, Segment.chars, toList_escapedKey]

theorem continueText_ne_empty {out : String} (ho : out ≠ "") (s : Segment) :
    continueText out s ≠ "" := by
  intro h
  have := congrArg String.toList h
  rw [toList_continueText ho] at this
  exact ho (String.toList_inj.1 (List.append_eq_nil_iff.1 this).1)

theorem toList_foldl_continueText {out : String} (ho : out ≠ "") (ss : List Segment) :
    (ss.foldl continueText out).toList = out.toList ++ ss.flatMap Segment.chars := by
  induction ss generalizing out with
  | nil => simp
  | cons s ss ih =>
    rw [List.foldl_cons, ih (continueText_ne_empty ho s), toList_continueText ho,
      List.flatMap_cons, List.append_assoc]

theorem headChars_ne_nil {s : Segment} (h : s.Regular) : s.headChars ≠ [] := by
  cases s with
  | field n => exact fun he => h.1 (String.toList_inj.1 he)
  | index i => simp [Segment.headChars, Segment.chars]
  | position d => simp [Segment.headChars, Segment.chars]
  | key k => simp [Segment.headChars, Segment.chars]

theorem toList_text {s : Segment} (h : s.Regular) (ss : List Segment) :
    (text ⟨s :: ss⟩).toList = s.headChars ++ ss.flatMap Segment.chars := by
  have hne : continueText "" s ≠ "" := by
    intro he
    have := congrArg String.toList he
    rw [toList_continueText_empty] at this
    exact headChars_ne_nil h this
  show (ss.foldl continueText (continueText "" s)).toList = _
  rw [toList_foldl_continueText hne, toList_continueText_empty]

/-- The text of the root is that of no other path. -/
theorem toList_text_ne_root {s : Segment} (h : s.Regular) (ss : List Segment) :
    (text ⟨s :: ss⟩).toList ≠ "<root>".toList := by
  rw [toList_text h]
  intro he
  rcases s.shape with ⟨n, rfl⟩ | ⟨cs, -, hcs⟩
  · cases hchars : n.toList with
    | nil => exact h.1 (String.toList_inj.1 hchars)
    | cons c rest =>
      rw [show Segment.headChars (.field n) = n.toList from rfl, hchars] at he
      exact Text.ne_of_isWordChar (h.2 c (hchars ▸ List.mem_cons_self)) (by decide)
        (List.cons.inj he).1
  · rw [hcs] at he
    exact absurd (List.cons.inj he).1 (by decide)

/-- Paths with one text are one path. -/
theorem eq_of_sameText {p q : Path} (hp : ∀ s ∈ p.segments, s.Regular)
    (hq : ∀ s ∈ q.segments, s.Regular) (h : p.text = q.text) : p = q := by
  obtain ⟨ss⟩ := p
  obtain ⟨ts⟩ := q
  have h := congrArg String.toList h
  cases ss with
  | nil =>
    cases ts with
    | nil => rfl
    | cons t ts => exact absurd h.symm (toList_text_ne_root (hq t List.mem_cons_self) ts)
  | cons s ss =>
    rw [List.forall_mem_cons] at hp
    cases ts with
    | nil => exact absurd h (toList_text_ne_root hp.1 ss)
    | cons t ts =>
      rw [List.forall_mem_cons] at hq
      rw [toList_text hp.1, toList_text hq.1] at h
      obtain ⟨rfl, hrest⟩ := Segment.headChars_unique hp.1 hq.1 (Segment.follows_flatMap ss)
        (Segment.follows_flatMap ts) h
      rw [Segment.flatMap_chars_unique hp.2 hq.2 hrest]

/-- A key that looks like the end of itself, between a field and a position beyond `2^52`. -/
def quotedPath : Path :=
  ((root.field "rows").key "a\"][\"b\\").push (.ofNumber (.ofInt 0x1000000000000000))

theorem eq_of_sameText_quoted :
    (∀ s ∈ quotedPath.segments, s.Regular) ∧
      quotedPath.text = "rows[\"a\\\"][\\\"b\\\\\"][1152921504606847000]" ∧
      quotedPath =
        ⟨[.field "rows", .key "a\"][\"b\\", .ofNumber (.ofInt 0x1000000000000000)]⟩ := by
  have hposition : (Double.ofInt 0x1000000000000000).toInt? = some (0x1000000000000000 : Nat) := by
    decide
  have hregular : ∀ s ∈ quotedPath.segments, s.Regular := by
    intro s hs
    have : s = .field "rows" ∨ s = .key "a\"][\"b\\" ∨
        s = .ofNumber (.ofInt 0x1000000000000000) := by
      simpa [quotedPath, root, field, key, push] using hs
    rcases this with rfl | rfl | rfl
    · exact ⟨by decide, List.all_eq_true.1 (by decide)⟩
    · exact trivial
    · exact Segment.regular_ofNumber hposition
  exact ⟨hregular, by decide, eq_of_sameText hregular hregular rfl⟩

end Path

end ShapeSchema
