import ShapeSchema.Proofs.Native.Entries
import ShapeSchema.Resolve.Cursor

/-!
# The best member of a union

Of the members with the highest score the first one is chosen, provided that the score is positive
(`Schema.FirstBest.choose`). A class scores at most the number of entries of a value, and exactly that
many if it has a field for each of them (`ofClass_eq_length`).
-/

namespace ShapeSchema

/-- References to aliases. -/
def Ty.isAlias {μ : Type} : Ty μ → Bool
  | aliasRef _ _ _ => true
  | _ => false

/-- Some field of a class has this name or is shown under it. -/
def ClassDef.Knows (d : ClassDef) (key : String) : Prop :=
  ∃ f ∈ d.fields, f.name.answersTo key = true

namespace Score

theorem ofClass_le (d : ClassDef) (es : List (String × Value)) : ofClass d es ≤ es.length :=
  List.countP_le_length

theorem ofClass_eq_length {d : ClassDef} {es : List (String × Value)} :
    ofClass d es = es.length ↔ ∀ key ∈ Entries.keys es, d.Knows key := by
  unfold ofClass Entries.keys ClassDef.Knows
  rw [List.countP_eq_length]
  simp only [List.any_eq_true, List.forall_mem_map]

end Score

namespace Schema

variable {s : Schema} {v : Value}

/-! ## Choosing -/

/-- A member with the highest score; those before it score lower. -/
def FirstBest (s : Schema) (v : Value) (members : List (Ty Authored)) (t : Ty Authored) : Prop :=
  ∃ before after, members = before ++ t :: after ∧
    (∀ u ∈ before, s.score v u < s.score v t) ∧ ∀ u ∈ after, s.score v u ≤ s.score v t

theorem FirstBest.mem {members : List (Ty Authored)} {t : Ty Authored}
    (h : s.FirstBest v members t) : t ∈ members := by
  obtain ⟨before, after, rfl, -, -⟩ := h
  exact List.mem_append_right _ List.mem_cons_self

theorem FirstBest.le {members : List (Ty Authored)} {t u : Ty Authored}
    (h : s.FirstBest v members t) (hu : u ∈ members) : s.score v u ≤ s.score v t := by
  obtain ⟨before, after, rfl, hbefore, hafter⟩ := h
  rcases List.mem_append.1 hu with hu | hu
  · exact Nat.le_of_lt (hbefore u hu)
  · rcases List.mem_cons.1 hu with rfl | hu
    · exact Nat.le_refl _
    · exact hafter u hu

theorem FirstBest.topScore {members : List (Ty Authored)} {t : Ty Authored}
    (h : s.FirstBest v members t) : s.topScore v members = s.score v t := by
  have hmax : (0 :: members.map (s.score v)).max? = some (s.score v t) := by
    refine List.max?_eq_some_iff.2 ⟨List.mem_cons_of_mem _ (List.mem_map_of_mem h.mem), ?_⟩
    intro n hn
    rcases List.mem_cons.1 hn with rfl | hn
    · exact Nat.zero_le _
    · obtain ⟨u, hu, rfl⟩ := List.mem_map.1 hn
      exact h.le hu
  rw [List.max?_cons'] at hmax
  exact Option.some.inj hmax

/-- The first member with the highest score leads those that have this score. -/
theorem FirstBest.leaders {members : List (Ty Authored)} {t : Ty Authored}
    (h : s.FirstBest v members t) : ∃ ts, s.leaders v members = t :: ts := by
  have htop := h.topScore
  obtain ⟨before, after, rfl, hbefore, -⟩ := h
  have hnone : (before.filter fun u => s.score v u == s.score v t) = [] := by
    refine List.filter_eq_nil_iff.2 fun u hu => ?_
    rw [beq_iff_eq]
    exact Nat.ne_of_lt (hbefore u hu)
  unfold Schema.leaders
  rw [htop, List.filter_append, hnone, List.nil_append, List.filter_cons,
    if_pos (beq_self_eq_true _)]
  exact ⟨_, rfl⟩

/-- The first member with the highest score is chosen if that score is positive. -/
theorem FirstBest.choose {members : List (Ty Authored)} {t : Ty Authored}
    (h : s.FirstBest v members t) (hpos : 0 < s.score v t) :
    s.choose v members = .resolved t := by
  obtain ⟨ts, hts⟩ := h.leaders
  unfold Schema.choose
  rw [hts, h.topScore]
  simp [hpos]

/-! ## Scores of forms -/

theorem score_eq_scoreForm {t : Ty Authored} (hu : t.isUnion = false) (ha : t.isAlias = false) :
    s.score v t = s.scoreForm v t := by
  unfold score
  cases t with
  | union ms null a => cases hu
  | aliasRef name mode a => cases ha
  | _ => rw [scoreAmong] <;> simp

theorem score_classRef {name : String} {mode : Mode} {dynamic : Bool} {a : Authored} {d : ClassDef}
    {es : List (String × Value)} (hv : v.entries? = some es) (hd : s.findClass? name mode = some d) :
    s.score v (.classRef name mode dynamic a) = Score.ofClass d es := by
  rw [score_eq_scoreForm rfl rfl, scoreForm, hv, hd]

/-! ## Resolving -/

theorem resolveAmong_union {pending : List String} {ms : List (Ty Authored)} {null : Option Authored}
    {a : Authored} {t : Ty Authored} (hv : v.isNull = false) (h : s.choose v ms = .resolved t) :
    s.resolveAmong pending v (.union ms null a) = s.resolveAmong pending v t := by
  rw [resolveAmong, hv]
  simp only [Bool.false_eq_true, if_false]
  split
  · next m hm =>
    rw [h] at hm
    cases hm
    rfl
  · next hother =>
    exact absurd h (hother t)

theorem resolveAmong_classRef (pending : List String) (name : String) (mode : Mode) (dynamic : Bool)
    (a : Authored) : s.resolveAmong pending v (.classRef name mode dynamic a) =
      .resolved (.classRef name mode dynamic a) := by
  rw [resolveAmong]
  · intro _ _ _ h
    cases h
  · intro _ _ _ h
    cases h

end Schema

end ShapeSchema
