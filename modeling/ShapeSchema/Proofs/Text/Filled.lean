import Mathlib.Data.List.TakeWhile
import ShapeSchema.Proofs.Text.Template

/-!
# Placeholders filled one after the other

Filling the placeholders of a template one after the other fills its holes, if the texts are inert
and no text in front of a hole contains the placeholder of that hole (`foldl_fillOne`). Each step
takes a placeholder away and brings at least the plain characters of its text (`Ready.step`), so
what comes out has the characters of the filled template only if all texts are inert
(`inert_of_foldl`). A placeholder that a text brings is filled there (`mark_prefix_of_foldl`).
-/

namespace ShapeSchema.Text

/-- Fills the placeholder of a name where it stands first. -/
def fillOne (cs : List Char) (p : List Char × List Char) : List Char :=
  match splitAtFirst (mark p.1) cs with
  | none => cs
  | some (before, after) => before ++ expandDollars before (mark p.1) after p.2 ++ after

/-- The holes in front of the one with the given name. -/
def inFront (k : List Char) (ps : List Piece) : List (List Char) :=
  (holes ps).takeWhile fun n => decide (n ≠ k)

/-- The texts with one more. -/
def given (value : List Char → Option (List Char)) (p : List Char × List Char) (n : List Char) :
    Option (List Char) :=
  if n = p.1 then some p.2 else value n

theorem given_self (value : List Char → Option (List Char)) (p : List Char × List Char) :
    given value p p.1 = some p.2 :=
  if_pos rfl

theorem given_of_ne {value : List Char → Option (List Char)} {p : List Char × List Char}
    {n : List Char} (h : n ≠ p.1) : given value p n = value n :=
  if_neg h

section Holes

variable {value : List Char → Option (List Char)} {ps : List Piece}

theorem holes_append (ps qs : List Piece) : holes (ps ++ qs) = holes ps ++ holes qs :=
  List.filterMap_append

theorem exists_hole {k : List Char} (h : k ∈ holes ps) :
    ∃ ps₁ ps₂, ps = ps₁ ++ .hole k :: ps₂ ∧ k ∉ holes ps₁ := by
  induction ps with
  | nil => cases h
  | cons p ps ih =>
    by_cases hp : p = .hole k
    · exact ⟨[], ps, by rw [hp]; rfl, List.not_mem_nil⟩
    · have hin : k ∈ holes ps ∧ ∀ qs, k ∉ holes qs → k ∉ holes (p :: qs) := by
        cases p with
        | char c => exact ⟨h, fun _ hq => hq⟩
        | hole n =>
          have hne : k ≠ n := fun hkn => hp (congrArg Piece.hole hkn.symm)
          refine ⟨(List.mem_cons.1 h).resolve_left hne, fun qs hq hk => ?_⟩
          exact ((List.mem_cons.1 hk).elim hne hq).elim
      obtain ⟨ps₁, ps₂, rfl, hnot⟩ := ih hin.1
      exact ⟨p :: ps₁, ps₂, rfl, hin.2 ps₁ hnot⟩

theorem rendered_append (ps qs : List Piece) :
    rendered value (ps ++ qs) = rendered value ps ++ rendered value qs :=
  List.flatMap_append

theorem tidy_of_append {qs : List Piece} (h : tidy (ps ++ qs) = true) : tidy qs = true := by
  induction ps with
  | nil => exact h
  | cons p ps ih => exact ih (tidy_tail h)

theorem rendered_congr {other : List Char → Option (List Char)}
    (h : ∀ n ∈ holes ps, value n = other n) : rendered value ps = rendered other ps := by
  induction ps with
  | nil => rfl
  | cons p ps ih =>
    have hp : p.shown value = p.shown other := by
      cases p with
      | char c => rfl
      | hole n => simp only [Piece.shown, h n List.mem_cons_self]
    have hps : rendered value ps = rendered other ps := by
      refine ih fun n hn => h n ?_
      cases p with
      | char c => exact hn
      | hole m => exact List.mem_cons_of_mem m hn
    exact congrArg₂ (· ++ ·) hp hps

theorem rendered_cons_hole (k : List Char) (ps : List Piece) :
    rendered value (.hole k :: ps) = (value k).getD (mark k) ++ rendered value ps :=
  rfl

theorem rendered_given_of_not_mem {p : List Char × List Char} (h : p.1 ∉ holes ps) :
    rendered (given value p) ps = rendered value ps :=
  rendered_congr fun _ hn => given_of_ne fun hnp => h (hnp ▸ hn)

/-- Where the text of a hole stands. -/
theorem rendered_hole {p : List Char × List Char} (hnd : (holes ps).Nodup)
    (hfree : value p.1 = none) (hmem : p.1 ∈ holes ps) :
    ∃ ps₁ ps₂, ps = ps₁ ++ .hole p.1 :: ps₂ ∧ p.1 ∉ holes ps₁ ∧ inFront p.1 ps = holes ps₁ ∧
      rendered value ps = rendered value ps₁ ++ mark p.1 ++ rendered value ps₂ ∧
      rendered (given value p) ps = rendered value ps₁ ++ p.2 ++ rendered value ps₂ := by
  obtain ⟨ps₁, ps₂, rfl, hnot⟩ := exists_hole hmem
  have hholes : holes (ps₁ ++ .hole p.1 :: ps₂) = holes ps₁ ++ p.1 :: holes ps₂ :=
    holes_append ps₁ _
  rw [hholes] at hnd
  have hnot₂ : p.1 ∉ holes ps₂ := (List.nodup_cons.1 (List.nodup_append.1 hnd).2.1).1
  refine ⟨ps₁, ps₂, rfl, hnot, ?_, ?_, ?_⟩
  · rw [inFront, hholes, List.takeWhile_append_of_pos fun n hn => by
      simpa using fun hnp : n = p.1 => hnot (hnp ▸ hn)]
    simp
  · rw [rendered_append, rendered_cons_hole, hfree, List.append_assoc]
    rfl
  · rw [rendered_append, rendered_cons_hole, rendered_given_of_not_mem hnot,
      rendered_given_of_not_mem hnot₂, given_self, List.append_assoc]
    rfl

end Holes

/-! ## Texts that stay as they are -/

section Fill

variable {value : List Char → Option (List Char)} {ps : List Piece}

theorem splitAtFirst_self (k r : List Char) :
    splitAtFirst (mark k) (mark k ++ r) = some ([], r) := by
  have hpre : (mark k).isPrefixOf (mark k ++ r) = true :=
    List.isPrefixOf_iff_prefix.2 (List.prefix_append _ _)
  rw [show mark k ++ r = '\x7b' :: (k ++ ['\x7d'] ++ r) from rfl] at hpre ⊢
  rw [splitAtFirst, if_pos hpre, show '\x7b' :: (k ++ ['\x7d'] ++ r) = mark k ++ r from rfl,
    List.drop_left]

/-- A step fills a hole. -/
theorem fillOne_rendered {p : List Char × List Char} (ht : tidy ps = true)
    (hnd : (holes ps).Nodup) (hk : IsName p.1) (hfree : value p.1 = none)
    (hinert : p.1 ∈ holes ps → Inert p.2)
    (hvalue : ∀ n ∈ inFront p.1 ps, ∀ v, value n = some v → ¬ mark p.1 <:+: v) :
    fillOne (rendered value ps) p = rendered (given value p) ps := by
  by_cases hmem : p.1 ∈ holes ps
  · obtain ⟨ps₁, ps₂, hps, hnot, hfront, -, hgiven⟩ := rendered_hole hnd hfree hmem
    have hsplit : splitAtFirst (mark p.1) (rendered value ps) =
        some (rendered value ps₁, rendered value ps₂) := by
      have hhole : rendered value (.hole p.1 :: ps₂) = mark p.1 ++ rendered value ps₂ := by
        rw [rendered_cons_hole, hfree]
        rfl
      rw [hps, splitAtFirst_rendered hk (hps ▸ ht) hnot (hfront ▸ hvalue), hhole,
        splitAtFirst_self, Option.map_some, List.append_nil]
    rw [fillOne, hsplit, hgiven]
    show _ ++ expandDollars _ _ _ p.2 ++ _ = _
    rw [expandDollars_of_inert (hinert hmem)]
  · have hall : inFront p.1 ps = holes ps := by
      rw [inFront, List.takeWhile_eq_self_iff]
      intro n hn
      simpa using fun hnp : n = p.1 => hmem (hnp ▸ hn)
    have hsplit : splitAtFirst (mark p.1) (rendered value ps) = none := by
      rw [← List.append_nil ps, splitAtFirst_rendered hk (by rwa [List.append_nil]) hmem
        (hall ▸ hvalue)]
      rfl
    rw [fillOne, hsplit, rendered_given_of_not_mem hmem]

theorem given_or_lookup {value : List Char → Option (List Char)} {p : List Char × List Char}
    {fills : List (List Char × List Char)} (hfree : value p.1 = none) (n : List Char) :
    (given value p n <|> fills.lookup n) = (value n <|> (p :: fills).lookup n) := by
  by_cases h : n = p.1
  · rw [h, given_self, hfree, List.lookup_cons, beq_self_eq_true]
    rfl
  · rw [given_of_ne h, List.lookup_cons, beq_false_of_ne h]

theorem ne_of_distinct {p q : List Char × List Char} {fills : List (List Char × List Char)}
    (h : p.1 ∉ fills.map Prod.fst) (hq : q ∈ fills) : q.1 ≠ p.1 :=
  fun hqp => h (hqp ▸ List.mem_map_of_mem hq)

/-- Steps fill the holes, if no text disturbs the steps behind it. -/
theorem foldl_fillOne {fills : List (List Char × List Char)} (ht : tidy ps = true)
    (hnd : (holes ps).Nodup) (hname : ∀ p ∈ fills, IsName p.1)
    (hdistinct : (fills.map Prod.fst).Nodup) (hfree : ∀ p ∈ fills, value p.1 = none)
    (hinert : ∀ p ∈ fills, p.1 ∈ holes ps → Inert p.2)
    (hvalue : ∀ q ∈ fills, ∀ n ∈ inFront q.1 ps, ∀ v, value n = some v → ¬ mark q.1 <:+: v)
    (hfills : fills.Pairwise fun p q => p.1 ∈ inFront q.1 ps → ¬ mark q.1 <:+: p.2) :
    fills.foldl fillOne (rendered value ps) =
      rendered (fun n => value n <|> fills.lookup n) ps := by
  induction fills generalizing value with
  | nil =>
    refine rendered_congr fun n _ => ?_
    cases value n <;> rfl
  | cons p fills ih =>
    rw [List.forall_mem_cons] at hname hfree hinert hvalue
    rw [List.map_cons, List.nodup_cons] at hdistinct
    rw [List.pairwise_cons] at hfills
    rw [List.foldl_cons,
      fillOne_rendered ht hnd hname.1 hfree.1 hinert.1 hvalue.1,
      ih hname.2 hdistinct.2 ?_ hinert.2 ?_ hfills.2]
    · exact rendered_congr fun n _ => given_or_lookup hfree.1 n
    · intro q hq
      rw [given_of_ne (ne_of_distinct hdistinct.1 hq)]
      exact hfree.2 q hq
    · intro q hq n hn v hv
      by_cases hnp : n = p.1
      · rw [hnp, given_self] at hv
        obtain rfl := Option.some.inj hv
        exact hfills.1 q hq (hnp ▸ hn)
      · rw [given_of_ne hnp] at hv
        exact hvalue.2 q hq n hn v hv

end Fill

/-! ## What the steps bring -/

/-- The placeholders that are filled, one behind the other. -/
def marks (fills : List (List Char × List Char)) : List Char := fills.flatMap fun p => mark p.1

/-- The texts that fill them. -/
def texts (fills : List (List Char × List Char)) : List Char := fills.flatMap Prod.snd

section Measure

variable {μ : List Char → Nat} {value : List Char → Option (List Char)} {ps : List Piece}

/-- What fills the holes replaces their placeholders. -/
theorem measure_rendered (hμ : ∀ a b, μ (a ++ b) = μ a + μ b)
    {fills : List (List Char × List Char)} (hnd : (holes ps).Nodup)
    (hdistinct : (fills.map Prod.fst).Nodup) (hfree : ∀ p ∈ fills, value p.1 = none)
    (hmem : ∀ p ∈ fills, p.1 ∈ holes ps) :
    μ (rendered (fun n => value n <|> fills.lookup n) ps ++ marks fills) =
      μ (rendered value ps ++ texts fills) := by
  induction fills generalizing value with
  | nil =>
    have hnone : rendered (fun n => value n <|> List.lookup n []) ps = rendered value ps :=
      rendered_congr fun n _ => by cases value n <;> rfl
    rw [hnone]
    rfl
  | cons p fills ih =>
    rw [List.forall_mem_cons] at hfree hmem
    rw [List.map_cons, List.nodup_cons] at hdistinct
    have hfree' : ∀ q ∈ fills, given value p q.1 = none := by
      intro q hq
      rw [given_of_ne (ne_of_distinct hdistinct.1 hq)]
      exact hfree.2 q hq
    have hrest := ih hdistinct.2 hfree' hmem.2
    rw [rendered_congr fun n _ => given_or_lookup hfree.1 n] at hrest
    obtain ⟨ps₁, ps₂, -, -, -, hhole, hgiven⟩ := rendered_hole hnd hfree.1 hmem.1
    rw [hgiven] at hrest
    rw [hhole, show marks (p :: fills) = mark p.1 ++ marks fills from rfl,
      show texts (p :: fills) = p.2 ++ texts fills from rfl]
    simp only [hμ] at hrest ⊢
    omega

end Measure

/-- A text that starts like a template and has the placeholders of the names. -/
structure Ready (ks : List (List Char)) (cs : List Char) : Prop where
  starts : ∃ c rest, cs = c :: rest ∧ isPlain c = true ∧ c ≠ '\x7b'
  occurs : ∀ k ∈ ks, ∃ x y, cs = x ++ mark k ++ y ∧ AfterHole y

theorem AfterHole.append {z r s : List Char} (h : AfterHole (z ++ r)) (hz : z = [] → AfterHole s) :
    AfterHole (z ++ s) := by
  cases z with
  | nil => exact hz rfl
  | cons c z => exact h

theorem not_afterHole_mark (k r : List Char) : ¬ AfterHole (mark k ++ r) :=
  fun h => absurd (h '\x7b' rfl) (by decide)

theorem isPlain_of_isGap {c : Char} (h : isGap c = true) : isPlain c = true := by
  unfold isGap at h
  simp only [Bool.or_eq_true, beq_iff_eq] at h
  rcases h with (rfl | rfl) | rfl <;> decide

theorem countP_mark_pos (k : List Char) : 0 < (mark k).countP isPlain :=
  List.countP_pos_iff.2 ⟨'\x7b', List.mem_cons_self, by decide⟩

/-- Two places of one placeholder are the same or do not overlap. -/
theorem mark_again {k a u r : List Char} (hk : IsName k) (h : mark k ++ a = u ++ (mark k ++ r)) :
    ∃ s, a = s ++ r ∧ u ++ mark k = mark k ++ s ∧ (s = [] ∨ '\x7b' ∈ s) := by
  rcases List.append_eq_append_iff.1 h with ⟨z, rfl, ha⟩ | ⟨z, hmark, hrest⟩
  · exact ⟨z ++ mark k, by rw [ha, List.append_assoc], by rw [List.append_assoc],
      .inr (List.mem_append_right z List.mem_cons_self)⟩
  · cases u with
    | nil =>
      obtain rfl : mark k = z := hmark
      exact ⟨[], (List.append_cancel_left hrest).symm, by rw [List.append_nil]; rfl, .inl rfl⟩
    | cons d u =>
      cases z with
      | nil =>
        rw [List.append_nil] at hmark
        exact ⟨mark k, hrest.symm, by rw [← hmark], .inr List.mem_cons_self⟩
      | cons e z => exact absurd hrest (not_prefix_of_suffix hk (by simp) hmark (by simp))

/-- A placeholder that is in a text is found there or further in front. -/
theorem splitAtFirst_again {k : List Char} (hk : IsName k) (x r : List Char) :
    ∃ before s, splitAtFirst (mark k) (x ++ mark k ++ r) = some (before, s ++ r) ∧
      x ++ mark k = before ++ mark k ++ s ∧ (s = [] ∨ '\x7b' ∈ s) := by
  cases hsplit : splitAtFirst (mark k) (x ++ mark k ++ r) with
  | none => exact absurd hsplit splitAtFirst_ne_none
  | some found =>
    obtain ⟨before, after⟩ := found
    obtain ⟨hcs, hfirst⟩ := splitAtFirst_some hsplit
    rw [List.append_assoc, List.append_assoc] at hcs
    obtain ⟨u, rfl⟩ : before <+: x :=
      List.prefix_of_prefix_length_le ⟨_, hcs.symm⟩ (List.prefix_append x _) (hfirst x r rfl)
    rw [List.append_assoc] at hcs
    obtain ⟨s, rfl, hus, hs⟩ := mark_again hk (List.append_cancel_left hcs).symm
    exact ⟨before, s, rfl, by rw [List.append_assoc, hus, List.append_assoc], hs⟩

/-- Nothing or a plain character follows a placeholder that is found. -/
theorem plain_after {s y : List Char} (hs : s = [] ∨ '\x7b' ∈ s) (hy : AfterHole y) :
    s ++ y = [] ∨ 0 < (s ++ y).countP isPlain := by
  rcases hs with rfl | hs
  · cases y with
    | nil => exact .inl rfl
    | cons d y =>
      exact .inr (List.countP_pos_iff.2 ⟨d, List.mem_cons_self, isPlain_of_isGap (hy d rfl)⟩)
  · exact .inr (List.countP_pos_iff.2 ⟨_, List.mem_append_left y hs, by decide⟩)

/-- A placeholder is found behind the start of the text, and nothing or a plain character follows
it. Whatever takes its place, the other placeholders remain. -/
theorem Ready.step {k : List Char} {ks : List (List Char)} {cs : List Char}
    (h : Ready (k :: ks) cs) (hk : IsName k) (hks : ∀ n ∈ ks, IsName n) (hnot : k ∉ ks) :
    ∃ before after, splitAtFirst (mark k) cs = some (before, after) ∧
      cs = before ++ mark k ++ after ∧ 0 < before.countP isPlain ∧
      (after = [] ∨ 0 < after.countP isPlain) ∧ ∀ t, Ready ks (before ++ t ++ after) := by
  obtain ⟨x, y, hxy, hy⟩ := h.occurs k List.mem_cons_self
  obtain ⟨before, s, hsplit, hbefore, hs⟩ := splitAtFirst_again hk x y
  obtain ⟨c, rest, hc, hplain, hbrace⟩ := h.starts
  have hcs : cs = before ++ mark k ++ (s ++ y) := by
    rw [hxy, hbefore, List.append_assoc]
  obtain ⟨before', rfl⟩ : ∃ before', before = c :: before' := by
    cases before with
    | nil => exact absurd (List.cons.inj (hc.symm.trans hcs)).1 hbrace
    | cons d before' => exact ⟨before', by rw [(List.cons.inj (hc.symm.trans hcs)).1]⟩
  refine ⟨c :: before', s ++ y, hxy ▸ hsplit, hcs,
    List.countP_pos_iff.2 ⟨c, List.mem_cons_self, hplain⟩, plain_after hs hy,
    fun t => ⟨⟨c, _, rfl, hplain, hbrace⟩, fun n hn => ?_⟩⟩
  -- the other placeholders stand in front of the one that is found or behind it
  generalize s ++ y = after at hcs
  have hkn : k ≠ n := fun hkn => hnot (hkn ▸ hn)
  obtain ⟨x, y, hxy, hy⟩ := h.occurs n (List.mem_cons_of_mem k hn)
  have heq : (c :: before') ++ (mark k ++ after) = x ++ (mark n ++ y) := by
    rw [← List.append_assoc, ← hcs, hxy, List.append_assoc]
  rcases List.append_eq_append_iff.1 heq with ⟨w, rfl, hrest⟩ | ⟨w, hbefore, hrest⟩
  · obtain ⟨z, rfl, rfl⟩ := mark_apart hk (hks n hn) hkn hrest
    exact ⟨(c :: before') ++ t ++ z, y, by simp, hy⟩
  · obtain ⟨z, rfl, rfl⟩ := mark_apart (hks n hn) hk hkn.symm hrest
    refine ⟨x, z ++ (t ++ after), by rw [hbefore]; simp, hy.append ?_⟩
    rintro rfl
    exact absurd hy (not_afterHole_mark k after)

/-- Steps bring at least the plain characters of the texts. If they bring no more, then at most the
texts, and exactly the texts only if these are inert. -/
theorem Ready.inert_of_foldl {fills : List (List Char × List Char)} {cs : List Char}
    (h : Ready (fills.map Prod.fst) cs) (hname : ∀ p ∈ fills, IsName p.1)
    (hdistinct : (fills.map Prod.fst).Nodup) :
    (cs ++ texts fills).countP isPlain ≤ (fills.foldl fillOne cs ++ marks fills).countP isPlain ∧
      ((fills.foldl fillOne cs ++ marks fills).countP isPlain =
          (cs ++ texts fills).countP isPlain →
        (fills.foldl fillOne cs ++ marks fills).length ≤ (cs ++ texts fills).length ∧
          ((fills.foldl fillOne cs ++ marks fills).length = (cs ++ texts fills).length →
            ∀ p ∈ fills, Inert p.2)) := by
  induction fills generalizing cs with
  | nil => simp [marks, texts]
  | cons p fills ih =>
    rw [List.forall_mem_cons] at hname
    rw [List.map_cons, List.nodup_cons] at hdistinct
    have hks : ∀ n ∈ fills.map Prod.fst, IsName n := by
      intro n hn
      obtain ⟨q, hq, rfl⟩ := List.mem_map.1 hn
      exact hname.2 q hq
    obtain ⟨before, after, hsplit, hcs, hb, ha, hready⟩ := h.step hname.1 hks hdistinct.1
    have hstep : fillOne cs p =
        before ++ expandDollars before (mark p.1) after p.2 ++ after := by
      rw [fillOne, hsplit]
    obtain ⟨hmore, hsame⟩ := plain_expandDollars hb (countP_mark_pos p.1) ha p.2
    obtain ⟨hmore', hsame'⟩ :=
      ih (hready (expandDollars before (mark p.1) after p.2)) hname.2 hdistinct.2
    rw [List.foldl_cons, hstep, show marks (p :: fills) = mark p.1 ++ marks fills from rfl,
      show texts (p :: fills) = p.2 ++ texts fills from rfl, hcs]
    simp only [List.countP_append, List.length_append] at hmore' hsame' ⊢
    refine ⟨by omega, fun heq => ?_⟩
    obtain ⟨hshort, hinert⟩ := hsame (by omega)
    obtain ⟨hshort', hinert'⟩ := hsame' (by omega)
    refine ⟨by omega, fun hlen => ?_⟩
    rw [List.forall_mem_cons]
    exact ⟨hinert (by omega), hinert' (by omega)⟩

theorem ready_rendered {ks : List (List Char)} {ps : List Piece} (ht : tidy ps = true)
    (hstart : ∃ c qs, ps = .char c :: qs ∧ isPlain c = true) (hmem : ∀ k ∈ ks, k ∈ holes ps) :
    Ready ks (rendered (fun _ => none) ps) := by
  constructor
  · obtain ⟨c, qs, rfl, hplain⟩ := hstart
    simp only [tidy, Bool.and_eq_true, bne_iff_ne] at ht
    exact ⟨c, rendered (fun _ => none) qs, rfl, hplain, ht.1⟩
  · intro k hk
    obtain ⟨ps₁, ps₂, rfl, -⟩ := exists_hole (hmem k hk)
    refine ⟨rendered (fun _ => none) ps₁, rendered (fun _ => none) ps₂, ?_,
      (tidy_hole (tidy_of_append ht)).2⟩
    rw [rendered_append, List.append_assoc]
    rfl

/-- If the steps end in the filled template, then all texts are inert. -/
theorem inert_of_foldl {fills : List (List Char × List Char)} {ps : List Piece}
    (ht : tidy ps = true) (hnd : (holes ps).Nodup)
    (hstart : ∃ c qs, ps = .char c :: qs ∧ isPlain c = true) (hname : ∀ p ∈ fills, IsName p.1)
    (hdistinct : (fills.map Prod.fst).Nodup) (hmem : ∀ p ∈ fills, p.1 ∈ holes ps)
    (h : fills.foldl fillOne (rendered (fun _ => none) ps) =
      rendered (fun n => fills.lookup n) ps) : ∀ p ∈ fills, Inert p.2 := by
  have hready : Ready (fills.map Prod.fst) (rendered (fun _ => none) ps) :=
    ready_rendered ht hstart (List.forall_mem_map.2 hmem)
  obtain ⟨-, hplain⟩ := hready.inert_of_foldl hname hdistinct
  have hfilled {μ : List Char → Nat} (hμ : ∀ a b, μ (a ++ b) = μ a + μ b) :=
    @measure_rendered μ (fun _ => none) ps hμ fills hnd hdistinct (fun _ _ => rfl) hmem
  rw [h] at hplain
  exact (hplain (hfilled fun _ _ => List.countP_append)).2 (hfilled fun _ _ => List.length_append)

/-! ## A placeholder inside a text -/

/-- A word does not commute with another one that lacks one of its letters. -/
theorem not_append_comm {c : Char} {w m : List Char} (hw : c ∈ w) (hm : c ∉ m) (hne : m ≠ []) :
    w ++ m ≠ m ++ w := by
  intro h
  induction hlen : w.length using Nat.strong_induction_on generalizing w with
  | h n ih =>
    rcases Nat.le_total m.length w.length with hle | hle
    · obtain ⟨w', rfl⟩ : m <+: w :=
        List.prefix_of_prefix_length_le ⟨w, h.symm⟩ (List.prefix_append w m) hle
      rw [List.append_assoc] at h
      have hpos := List.length_pos_of_ne_nil hne
      exact ih w'.length (by rw [← hlen, List.length_append]; omega)
        ((List.mem_append.1 hw).resolve_left hm) (List.append_cancel_left h) rfl
    · have hpre : w <+: m := List.prefix_of_prefix_length_le ⟨m, h⟩ (List.prefix_append m w) hle
      exact hm (hpre.subset hw)

/-- A text that can change places with a placeholder starts with it. -/
theorem mark_prefix_of_swap {k v w : List Char} (hk : IsName k) {c : Char} (hc : isGap c = true)
    (hcw : c ∈ w) (h : v ++ (w ++ mark k) = mark k ++ (w ++ v)) : mark k <+: v := by
  rcases Nat.le_total (mark k).length v.length with hle | hle
  · exact List.prefix_of_prefix_length_le ⟨_, h.symm⟩ (List.prefix_append v _) hle
  · obtain ⟨z, hz⟩ : v <:+ mark k := by
      have hlast : mark k ++ w ++ v = v ++ w ++ mark k := by
        rw [List.append_assoc, ← h, List.append_assoc]
      exact List.suffix_of_suffix_length_le ⟨_, hlast⟩ (List.suffix_append _ _) hle
    by_cases hv : v = []
    · rw [hv, List.nil_append, List.append_nil] at h
      exact absurd h (not_append_comm hcw (gap_not_mem_mark hk hc) (by simp [mark]))
    · by_cases hz' : z = []
      · rw [hz', List.nil_append] at hz
        exact hz ▸ List.prefix_refl _
      · exact absurd h.symm (not_prefix_of_suffix hk hz' hz.symm hv)

/-- A placeholder that stands in front of its hole as well is filled there; that is filling the hole
only if the text starts with the placeholder. -/
theorem mark_prefix_of_fillOne {k v x y r : List Char} (hk : IsName k) (hv : Inert v) {c : Char}
    (hc : isGap c = true) (hcy : c ∈ y)
    (h : fillOne (x ++ mark k ++ y ++ mark k ++ r) (k, v) = x ++ mark k ++ y ++ v ++ r) :
    mark k <+: v := by
  obtain ⟨before, s, hsplit, hbefore, -⟩ := splitAtFirst_again hk x (y ++ mark k ++ r)
  have hfilled : fillOne (x ++ mark k ++ (y ++ mark k ++ r)) (k, v) =
      before ++ v ++ (s ++ (y ++ mark k ++ r)) := by
    rw [fillOne, hsplit]
    show before ++ expandDollars _ _ _ v ++ _ = _
    rw [expandDollars_of_inert hv]
  rw [show x ++ mark k ++ y ++ mark k ++ r = x ++ mark k ++ (y ++ mark k ++ r) by
    simp only [List.append_assoc], hfilled, hbefore] at h
  have hswap : before ++ (v ++ ((s ++ y) ++ mark k)) ++ r =
      before ++ (mark k ++ ((s ++ y) ++ v)) ++ r := by
    simpa only [List.append_assoc] using h
  exact mark_prefix_of_swap hk hc (List.mem_append_right s hcy)
    (List.append_cancel_left (List.append_cancel_right hswap))

theorem exists_gap {value : List Char → Option (List Char)} {n k : List Char}
    {ps qs : List Piece} (ht : tidy (.hole n :: ps ++ .hole k :: qs) = true)
    (hfree : value k = none) : ∃ c, isGap c = true ∧ c ∈ rendered value ps := by
  have hafter : AfterHole (rendered value (ps ++ .hole k :: qs)) := (tidy_hole ht).2
  rw [rendered_append] at hafter
  cases hgap : rendered value ps with
  | nil =>
    rw [hgap, rendered_cons_hole, hfree] at hafter
    exact absurd hafter (not_afterHole_mark k _)
  | cons c gap => exact ⟨c, hafter c (by rw [hgap]; rfl), List.mem_cons_self⟩

/-- If a text contains the placeholder of a hole behind it, that placeholder is filled and not the
hole; the outcome is the same only if the text of the hole starts with its placeholder. -/
theorem mark_prefix_of_foldl {p q : List Char × List Char} {ps : List Piece} (ht : tidy ps = true)
    (hnd : (holes ps).Nodup) (hp : IsName p.1) (hq : IsName q.1) (hne : q.1 ≠ p.1)
    (hfront : p.1 ∈ inFront q.1 ps) (hmem : q.1 ∈ holes ps) (hinertp : Inert p.2)
    (hinertq : Inert q.2)
    (h : [p, q].foldl fillOne (rendered (fun _ => none) ps) =
      rendered (fun n => [p, q].lookup n) ps)
    (hin : mark q.1 <:+: p.2) : mark q.1 <+: q.2 := by
  have hfirst : fillOne (rendered (fun _ => none) ps) p = rendered (given (fun _ => none) p) ps :=
    fillOne_rendered ht hnd hp rfl (fun _ => hinertp) (fun _ _ _ hv => by cases hv)
  set value := given (fun _ => none) p
  have hfree : value q.1 = none := given_of_ne hne
  have hlast : rendered (fun n => [p, q].lookup n) ps = rendered (given value q) ps := by
    refine rendered_congr fun n _ => ?_
    have hp : (value n <|> [q].lookup n) = (none <|> [p, q].lookup n) := given_or_lookup rfl n
    have hq : (given value q n <|> [].lookup n) = (value n <|> [q].lookup n) :=
      given_or_lookup hfree n
    rw [hp] at hq
    simpa using hq.symm
  rw [List.foldl_cons, hfirst, List.foldl_cons, List.foldl_nil, hlast] at h
  obtain ⟨qs₁, qs₂, rfl, -, hholes, hhole, hgiven⟩ := rendered_hole hnd hfree hmem
  rw [hholes] at hfront
  obtain ⟨ps₁, ps₂, rfl, -⟩ := exists_hole hfront
  rw [List.append_assoc] at ht
  obtain ⟨c, hc, hcmem⟩ := exists_gap (tidy_of_append ht) hfree
  obtain ⟨a, b, hab⟩ := hin
  have htext : rendered value (ps₁ ++ .hole p.1 :: ps₂) =
      (rendered value ps₁ ++ a) ++ mark q.1 ++ (b ++ rendered value ps₂) := by
    have hshown : value p.1 = some p.2 := given_self _ p
    rw [rendered_append, rendered_cons_hole, hshown, Option.getD_some, ← hab]
    simp only [List.append_assoc]
  rw [hhole, hgiven, htext] at h
  exact mark_prefix_of_fillOne hq hinertq hc (List.mem_append_right b hcmem) h

end ShapeSchema.Text
