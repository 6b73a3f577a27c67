import Mathlib.Data.List.Infix
import ShapeSchema.Proofs.Text.Words
import ShapeSchema.Text.Template

/-!
# Filled placeholders

A text without a live dollar sign is filled in as it is (`expandDollars_of_inert`), and every other
one wins plain characters or gets shorter (`plain_expandDollars`). A template is a row of characters
and holes; the placeholder of a hole is found there, unless a text in front of the hole contains it
(`splitAtFirst_rendered`).
-/

namespace ShapeSchema.Text

/-! ## Dollar signs -/

/-- A text without a live dollar sign. -/
def Inert (cs : List Char) : Prop := ∀ x ∈ ['$', '&', '\x60', '\''], ¬ ['$', x] <:+: cs

theorem inert_of_not_mem {cs : List Char} (h : '$' ∉ cs) : Inert cs :=
  fun _ _ hin => h (hin.subset List.mem_cons_self)

theorem Inert.tail {c : Char} {cs : List Char} (h : Inert (c :: cs)) : Inert cs :=
  fun x hx hin => h x hx (hin.trans (List.suffix_cons c cs).isInfix)

theorem not_inert_cons_cons {x : Char} (hx : x ∈ ['$', '&', '\x60', '\'']) (cs : List Char) :
    ¬ Inert ('$' :: x :: cs) :=
  fun h => h x hx ⟨[], cs, rfl⟩

theorem expandDollars_of_inert {before mark after cs : List Char} (h : Inert cs) :
    expandDollars before mark after cs = cs := by
  fun_induction expandDollars before mark after cs with
  | case1 cs => exact absurd h (not_inert_cons_cons (by simp) cs)
  | case2 cs => exact absurd h (not_inert_cons_cons (by simp) cs)
  | case3 cs => exact absurd h (not_inert_cons_cons (by simp) cs)
  | case4 cs => exact absurd h (not_inert_cons_cons (by simp) cs)
  | case5 c cs _ _ _ _ ih => rw [ih h.tail]
  | case6 => rfl

/-- A character that has no meaning behind a dollar sign. -/
def isPlain (c : Char) : Bool := c != '$' && c != '&' && c != '\x60' && c != '\''

/-- Expanding a text loses no plain character. If it wins none either, then only dollar signs and
what follows them got lost, and nothing did exactly if the text is inert. -/
theorem plain_expandDollars {before mark after : List Char} (hb : 0 < before.countP isPlain)
    (hm : 0 < mark.countP isPlain) (ha : after = [] ∨ 0 < after.countP isPlain) (cs : List Char) :
    cs.countP isPlain ≤ (expandDollars before mark after cs).countP isPlain ∧
      ((expandDollars before mark after cs).countP isPlain = cs.countP isPlain →
        (expandDollars before mark after cs).length ≤ cs.length ∧
        ((expandDollars before mark after cs).length = cs.length → Inert cs)) := by
  have special {x : Char} (hx : isPlain x = false) (cs : List Char) :
      (x :: cs).countP isPlain = cs.countP isPlain := by
    rw [List.countP_cons, hx]
    rfl
  fun_induction expandDollars before mark after cs with
  | case1 cs ih =>
    rw [special (by decide), special (by decide), special (by decide)]
    refine ⟨ih.1, fun h => ?_⟩
    have := (ih.2 h).1
    simp only [List.length_cons]
    exact ⟨by omega, fun _ => by omega⟩
  | case2 cs ih =>
    rw [special (by decide), special (by decide), List.countP_append]
    exact ⟨by omega, fun h => by omega⟩
  | case3 cs ih =>
    rw [special (by decide), special (by decide), List.countP_append]
    exact ⟨by omega, fun h => by omega⟩
  | case4 cs ih =>
    rw [special (by decide), special (by decide), List.countP_append]
    rcases ha with rfl | ha
    · rw [List.nil_append, List.countP_nil, Nat.zero_add]
      refine ⟨ih.1, fun h => ?_⟩
      have := (ih.2 h).1
      simp only [List.length_cons]
      exact ⟨by omega, fun _ => by omega⟩
    · exact ⟨by omega, fun h => by omega⟩
  | case5 c cs h1 h2 h3 h4 ih =>
    rw [List.countP_cons, List.countP_cons]
    refine ⟨by omega, fun h => ?_⟩
    obtain ⟨hle, hinert⟩ := ih.2 (by omega)
    rw [List.length_cons, List.length_cons]
    refine ⟨by omega, fun hlen x hx hin => ?_⟩
    rcases List.infix_cons_iff.1 hin with hpre | hin
    · obtain ⟨rest, hrest⟩ := hpre
      obtain ⟨rfl, rfl⟩ := List.cons.inj hrest
      simp only [List.mem_cons, List.not_mem_nil, or_false] at hx
      rcases hx with rfl | rfl | rfl | rfl
      · exact h1 rest rfl rfl
      · exact h2 rest rfl rfl
      · exact h3 rest rfl rfl
      · exact h4 rest rfl rfl
    · exact hinert (by omega) x hx hin
  | case6 => exact ⟨le_rfl, fun _ => ⟨le_rfl, fun _ x _ hin => by simp at hin⟩⟩

/-! ## Occurrences -/

theorem splitAtFirst_some {mark cs before after : List Char}
    (h : splitAtFirst mark cs = some (before, after)) :
    cs = before ++ mark ++ after ∧
      ∀ x y, cs = x ++ mark ++ y → before.length ≤ x.length := by
  induction cs generalizing before with
  | nil =>
    unfold splitAtFirst at h
    split at h
    · next hm =>
      obtain rfl := List.isEmpty_iff.1 hm
      cases h
      exact ⟨rfl, fun _ _ _ => Nat.zero_le _⟩
    · cases h
  | cons c cs ih =>
    unfold splitAtFirst at h
    split at h
    · next hm =>
      obtain ⟨rest, hrest⟩ := List.isPrefixOf_iff_prefix.1 hm
      cases h
      refine ⟨?_, fun _ _ _ => Nat.zero_le _⟩
      rw [← hrest, List.drop_left, List.nil_append]
    · next hm =>
      obtain ⟨⟨before, after⟩, hp, he⟩ := Option.map_eq_some_iff.1 h
      obtain ⟨rfl, rfl⟩ := Prod.mk.inj he
      obtain ⟨rfl, hfirst⟩ := ih hp
      refine ⟨rfl, fun x y hxy => ?_⟩
      cases x with
      | nil => exact absurd (List.isPrefixOf_iff_prefix.2 ⟨y, hxy.symm⟩) hm
      | cons d x => exact Nat.succ_le_succ (hfirst x y (List.cons.inj hxy).2)

theorem splitAtFirst_ne_none {mark x y : List Char} :
    splitAtFirst mark (x ++ mark ++ y) ≠ none := by
  intro h
  induction x with
  | nil =>
    cases mark with
    | nil =>
      cases y with
      | nil => cases h
      | cons c y => simp [splitAtFirst] at h
    | cons c mark =>
      have hpre : (c :: mark).isPrefixOf (c :: (mark ++ y)) = true :=
        List.isPrefixOf_iff_prefix.2 ⟨y, rfl⟩
      rw [List.nil_append, List.cons_append, splitAtFirst, if_pos hpre] at h
      cases h
  | cons c x ih =>
    rw [List.cons_append, List.cons_append, splitAtFirst] at h
    split at h
    · cases h
    · exact ih (Option.map_eq_none_iff.1 h)

/-- A mark that begins in no place of a text is looked for behind it. -/
theorem splitAtFirst_append {mark cs rest : List Char}
    (h : ∀ a b, cs = a ++ b → b ≠ [] → ¬ mark <+: b ++ rest) :
    splitAtFirst mark (cs ++ rest) =
      (splitAtFirst mark rest).map fun p => (cs ++ p.1, p.2) := by
  induction cs with
  | nil => simp
  | cons c cs ih =>
    have hhere : ¬ mark.isPrefixOf (c :: (cs ++ rest)) = true :=
      fun hm => h [] (c :: cs) rfl (by simp) (List.isPrefixOf_iff_prefix.1 hm)
    rw [List.cons_append, splitAtFirst, if_neg hhere,
      ih fun a b hab hb => h (c :: a) b (by rw [hab]; rfl) hb, Option.map_map]
    rfl

/-! ## Placeholders -/

/-- The placeholder of a name. -/
def mark (name : List Char) : List Char := '\x7b' :: name ++ ['\x7d']

/-- A character that can stand behind a placeholder. -/
def isGap (c : Char) : Bool := c == ' ' || c == ',' || c == ':'

def isNameChar (c : Char) : Bool := c != '\x7b' && c != '\x7d' && !isGap c

/-- A name without braces and gaps. -/
def IsName (name : List Char) : Prop := ∀ c ∈ name, isNameChar c = true

instance (name : List Char) : Decidable (IsName name) :=
  decidable_of_iff (name.all isNameChar = true) List.all_eq_true

theorem ne_of_isNameChar {c x : Char} (hc : isNameChar c = true) (hx : isNameChar x = false) :
    c ≠ x := by
  rintro rfl
  rw [hc] at hx
  cases hx

theorem mark_append_unique {k n r s : List Char} (hk : IsName k) (hn : IsName n)
    (h : mark k ++ r = mark n ++ s) : k = n ∧ r = s := by
  have h : k ++ '\x7d' :: r = n ++ '\x7d' :: s := by simpa [mark] using h
  have hbrace : isNameChar '\x7d' = false := by decide
  obtain ⟨hkn, hrest⟩ := append_unique hk hn (by simpa using hbrace) (by simpa using hbrace) h
  exact ⟨hkn, (List.cons.inj hrest).2⟩

/-- No placeholder begins inside another one. -/
theorem not_prefix_of_suffix {k n a b r s : List Char} (hn : IsName n) (ha : a ≠ [])
    (hab : mark n = a ++ b) (hb : b ≠ []) : mark k ++ r ≠ b ++ s := by
  intro h
  cases a with
  | nil => exact ha rfl
  | cons c a =>
    cases b with
    | nil => exact hb rfl
    | cons d b =>
      have hd : d ∈ n ++ ['\x7d'] := by
        rw [show n ++ ['\x7d'] = a ++ d :: b from (List.cons.inj hab).2]
        exact List.mem_append_right _ List.mem_cons_self
      have hbrace : '\x7b' = d := (List.cons.inj h).1
      rcases List.mem_append.1 hd with hd | hd
      · exact ne_of_isNameChar (hn d hd) (by decide) hbrace.symm
      · rw [List.mem_singleton.1 hd] at hbrace
        exact absurd hbrace (by decide)

/-- Different placeholders do not overlap. -/
theorem mark_apart {k n a z y : List Char} (hk : IsName k) (hn : IsName n) (hne : k ≠ n)
    (h : mark k ++ a = z ++ (mark n ++ y)) :
    ∃ z', z = mark k ++ z' ∧ a = z' ++ (mark n ++ y) := by
  rcases List.append_eq_append_iff.1 h with ⟨z', rfl, ha⟩ | ⟨w, hw, hrest⟩
  · exact ⟨z', rfl, ha⟩
  · cases z with
    | nil => exact absurd (mark_append_unique hk hn h).1 hne
    | cons c z =>
      cases w with
      | nil => exact ⟨[], by rw [hw, List.append_nil, List.append_nil], hrest.symm⟩
      | cons d w => exact absurd hrest (not_prefix_of_suffix hk (by simp) hw (by simp))

/-! ## Templates -/

/-- A part of a template. -/
inductive Piece where
  | char (c : Char)
  | hole (name : List Char)
deriving DecidableEq

/-- The pieces of a template, a hole for each name between braces. The name that is still open
comes with its last character first. -/
def Piece.ofChars : Option (List Char) → List Char → List Piece
  | none, [] => []
  | none, c :: cs =>
    if c = '\x7b' then Piece.ofChars (some []) cs else .char c :: Piece.ofChars none cs
  | some name, [] => ('\x7b' :: name.reverse).map .char
  | some name, c :: cs =>
    if c = '\x7d' then .hole name.reverse :: Piece.ofChars none cs
    else Piece.ofChars (some (c :: name)) cs

/-- The pieces of a template. -/
def Piece.ofTemplate (template : String) : List Piece := Piece.ofChars none template.toList

/-- The names of the holes, in order. -/
def holes (ps : List Piece) : List (List Char) :=
  ps.filterMap fun
    | .char _ => none
    | .hole name => some name

/-- A hole shows its text, or its placeholder if it has none. -/
def Piece.shown (value : List Char → Option (List Char)) : Piece → List Char
  | .char c => [c]
  | .hole name => (value name).getD (mark name)

/-- All holes filled at once. -/
def rendered (value : List Char → Option (List Char)) (ps : List Piece) : List Char :=
  ps.flatMap (Piece.shown value)

/-- A template whose holes have such names and stand at its end or before a gap. -/
def tidy : List Piece → Bool
  | [] => true
  | .char c :: ps => c != '\x7b' && tidy ps
  | .hole name :: ps =>
    name.all isNameChar && tidy ps &&
      match ps with
      | [] => true
      | .char c :: _ => isGap c
      | .hole _ :: _ => false

theorem rendered_none_ofChars (opened : Option (List Char)) (cs : List Char) :
    rendered (fun _ => none) (Piece.ofChars opened cs) =
      (opened.elim [] fun name => '\x7b' :: name.reverse) ++ cs := by
  fun_induction Piece.ofChars opened cs with
  | case1 => rfl
  | case2 cs ih => simpa using ih
  | case3 c cs _ ih =>
    show [c] ++ rendered _ (Piece.ofChars none cs) = _
    rw [ih]
    rfl
  | case4 name =>
    rw [rendered, List.flatMap_map]
    simp [Piece.shown]
  | case5 name cs ih =>
    show mark name.reverse ++ rendered _ (Piece.ofChars none cs) = _
    rw [ih]
    simp [mark]
  | case6 name c cs _ ih =>
    rw [ih]
    simp

/-- Without texts a template stays as it is. -/
theorem rendered_none_ofTemplate (template : String) :
    rendered (fun _ => none) (Piece.ofTemplate template) = template.toList :=
  rendered_none_ofChars none template.toList

section Rendered

variable {value : List Char → Option (List Char)}

/-- What can follow a placeholder. -/
def AfterHole (cs : List Char) : Prop := ∀ c ∈ cs.head?, isGap c = true

theorem tidy_tail {p : Piece} {ps : List Piece} (h : tidy (p :: ps) = true) : tidy ps = true := by
  cases p <;> simp [tidy] at h <;> simp [h]

theorem tidy_hole {n : List Char} {ps : List Piece} (h : tidy (.hole n :: ps) = true) :
    IsName n ∧ AfterHole (rendered value ps) := by
  simp only [tidy, Bool.and_eq_true, List.all_eq_true] at h
  refine ⟨h.1.1, ?_⟩
  cases ps with
  | nil => simp [rendered, AfterHole]
  | cons p ps =>
    cases p with
    | char c => simpa [rendered, AfterHole, Piece.shown] using h.2
    | hole m => simp at h

theorem gap_not_mem_mark {k : List Char} (hk : IsName k) {c : Char} (hc : isGap c = true) :
    c ∉ mark k := by
  intro h
  have hname : isNameChar c = false ∧ c ≠ '\x7b' ∧ c ≠ '\x7d' := by
    unfold isGap at hc
    simp only [Bool.or_eq_true, beq_iff_eq] at hc
    rcases hc with (rfl | rfl) | rfl <;> decide
  rcases List.mem_cons.1 h with h | h
  · exact hname.2.1 h
  · rcases List.mem_append.1 h with h | h
    · exact ne_of_isNameChar (hk c h) hname.1 rfl
    · exact hname.2.2 (List.mem_singleton.1 h)

/-- The placeholder of another name does not begin in what a piece shows. -/
theorem not_prefix_shown {k : List Char} (hk : IsName k) {p : Piece} {ps : List Piece}
    (ht : tidy (p :: ps) = true) (hp : p ≠ .hole k)
    (hv : ∀ n v, p = .hole n → value n = some v → ¬ mark k <:+: v) {a b : List Char}
    (hab : p.shown value = a ++ b) (hb : b ≠ []) : ¬ mark k <+: b ++ rendered value ps := by
  rintro ⟨r, hr⟩
  cases p with
  | char c =>
    have hc : c ≠ '\x7b' := by
      simp only [tidy, Bool.and_eq_true, bne_iff_ne] at ht
      exact ht.1
    cases b with
    | nil => exact hb rfl
    | cons d b =>
      have hd : d = c := by
        have : d ∈ [c] := by
          rw [show [c] = a ++ d :: b from hab]
          simp
        simpa using this
      exact hc (hd ▸ (List.cons.inj hr).1.symm)
  | hole n =>
    obtain ⟨hn, hafter⟩ : IsName n ∧ AfterHole (rendered value ps) := tidy_hole ht
    cases hval : value n with
    | none =>
      have hab : mark n = a ++ b := by simpa [Piece.shown, hval] using hab
      cases a with
      | nil =>
        rw [← show mark n = b from hab] at hr
        exact hp (congrArg Piece.hole (mark_append_unique hk hn hr).1.symm)
      | cons c a => exact not_prefix_of_suffix hn (by simp) hab hb hr
    | some v =>
      have hab : v = a ++ b := by simpa [Piece.shown, hval] using hab
      rcases List.append_eq_append_iff.1 hr with ⟨w, hbw, -⟩ | ⟨w, hmark, hrest⟩
      · refine hv n v rfl hval ⟨a, w, ?_⟩
        rw [hab, hbw, List.append_assoc]
      · cases w with
        | nil =>
          refine hv n v rfl hval ⟨a, [], ?_⟩
          rw [hab, hmark, List.append_nil, List.append_nil]
        | cons c w =>
          refine gap_not_mem_mark hk (hafter c ?_)
            (hmark ▸ List.mem_append_right b List.mem_cons_self)
          rw [hrest]
          rfl

/-- A placeholder is found in its hole, unless it is in a text in front of it. -/
theorem splitAtFirst_rendered {k : List Char} (hk : IsName k) {ps qs : List Piece}
    (ht : tidy (ps ++ qs) = true) (hholes : k ∉ holes ps)
    (hv : ∀ n ∈ holes ps, ∀ v, value n = some v → ¬ mark k <:+: v) :
    splitAtFirst (mark k) (rendered value (ps ++ qs)) =
      (splitAtFirst (mark k) (rendered value qs)).map fun p => (rendered value ps ++ p.1, p.2) := by
  induction ps with
  | nil => simp [rendered]
  | cons p ps ih =>
    have hmem : ∀ n, p = .hole n → n ∈ holes (p :: ps) := by
      rintro n rfl
      exact List.mem_cons_self
    have hsub : ∀ n ∈ holes ps, n ∈ holes (p :: ps) := by
      intro n hn
      cases p with
      | char c => exact hn
      | hole m => exact List.mem_cons_of_mem m hn
    have hne : p ≠ .hole k := fun hp => hholes (hmem k hp)
    have ht : tidy (p :: (ps ++ qs)) = true := ht
    show splitAtFirst (mark k) (p.shown value ++ rendered value (ps ++ qs)) = _
    rw [splitAtFirst_append fun a b hab hb =>
        not_prefix_shown hk ht hne (fun n v hp => hv n (hmem n hp) v) hab hb,
      ih (tidy_tail ht) (fun hn => hholes (hsub k hn)) (fun n hn => hv n (hsub n hn)),
      Option.map_map]
    congr 1
    funext q
    show (_ ++ (_ ++ q.1), q.2) = _
    rw [← List.append_assoc]
    rfl

end Rendered

end ShapeSchema.Text
