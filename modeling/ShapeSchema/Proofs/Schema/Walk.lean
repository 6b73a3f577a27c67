import Mathlib.Logic.Relation
import ShapeSchema.Proofs.Native.Entries
import ShapeSchema.Schema.Cycles

/-!
# The search for components

Between two steps a search satisfies `Walk.Sound`, whatever the table. The names on the stack lie
above each other in the order in which they were met, every one of them can be reached from the
visits further down, and what was looked at from above a visit is either off the stack or no lower
than some lowlink that is still to be handed on.

The invariant holds of a search that has not begun. Meeting a name preserves it (`Sound.enter`), and
so does looking at a name that needs no visit (`Sound.look`).
-/

namespace ShapeSchema

open Relation

namespace Dependencies

/-- A name depends on a name of the table. -/
def Leads (deps : Dependencies) (a b : String) : Prop := b ∈ deps.of a ∧ deps.has b = true

/-- A chain of dependencies, none of them for the shortest. -/
abbrev Reaches (deps : Dependencies) : String → String → Prop := ReflTransGen deps.Leads

theorem has_iff {deps : Dependencies} {name : String} :
    deps.has name = true ↔ name ∈ Entries.keys deps := by
  unfold has
  rw [Option.isSome_iff_ne_none, ne_eq, Entries.find?_eq_none, not_not]

end Dependencies

namespace Walk

/-! ## Primitives -/

section Primitives

variable {w : Walk} {name other : String}

theorem index_enter (h : other ∈ w.met) : (w.enter name).index other = w.index other :=
  List.idxOf_append_of_mem h

theorem index_enter_self (h : name ∉ w.met) : (w.enter name).index name = w.met.length := by
  show (w.met ++ [name]).idxOf name = w.met.length
  rw [List.idxOf_append_of_notMem h]
  simp

theorem index_lt (h : name ∈ w.met) : w.index name < w.met.length := List.idxOf_lt_length_of_mem h

theorem eq_of_index (h : name ∈ w.met) (he : w.index name = w.index other) : name = other :=
  (List.idxOf_inj h).1 he

theorem lowlink_enter : (w.enter name).lowlink other =
    if name = other then w.met.length else w.lowlink other := by
  show (Entries.find? (Entries.insert _ _ _) other).getD 0 = _
  rw [Entries.find?_insert]
  by_cases h : name = other
  · simp [h]
  · simp [h, lowlink]

theorem mem_met_enter : other ∈ (w.enter name).met ↔ other ∈ w.met ∨ other = name := by
  show other ∈ w.met ++ [name] ↔ _
  rw [List.mem_append, List.mem_singleton]

theorem mem_stack_enter : other ∈ (w.enter name).stack ↔ other = name ∨ other ∈ w.stack :=
  List.mem_cons

theorem lowlink_lower (bound : Nat) : (w.lower name bound).lowlink other =
    if name = other then min (w.lowlink name) bound else w.lowlink other := by
  show (Entries.find? (Entries.insert _ _ _) other).getD 0 = _
  rw [Entries.find?_insert]
  by_cases h : name = other
  · simp [h]
  · simp [h, lowlink]

theorem popTo_sublist (name : String) (stack : List String) :
    (popTo name stack).1.Sublist stack ∧ (popTo name stack).2.Sublist stack := by
  induction stack with
  | nil => exact ⟨.slnil, .slnil⟩
  | cons member rest ih =>
    unfold popTo
    split
    · exact ⟨(List.nil_sublist rest).cons_cons member, List.sublist_cons_self member rest⟩
    · exact ⟨ih.1.cons_cons member, ih.2.cons member⟩

/-- A stack that falls in some measure is cut at the measure of the name. -/
theorem mem_popTo {f : String → Nat} {stack : List String} (hname : name ∈ stack)
    (hs : stack.Pairwise fun a b => f b < f a) (a : String) :
    (a ∈ (popTo name stack).1 ↔ a ∈ stack ∧ f name ≤ f a) ∧
      (a ∈ (popTo name stack).2 ↔ a ∈ stack ∧ f a < f name) := by
  induction stack with
  | nil => simp at hname
  | cons member rest ih =>
    obtain ⟨hfirst, hrest⟩ := List.pairwise_cons.1 hs
    unfold popTo
    by_cases hm : member = name
    · subst hm
      rw [if_pos rfl]
      have hbelow : a ∈ rest → f a < f member := hfirst a
      constructor
      · constructor
        · intro ha
          rw [List.mem_singleton.1 ha]
          exact ⟨List.mem_cons_self, Nat.le_refl _⟩
        · rintro ⟨ha, hle⟩
          rcases List.mem_cons.1 ha with rfl | ha
          · exact List.mem_singleton_self _
          · exact absurd (hbelow ha) (by omega)
      · constructor
        · intro ha
          exact ⟨List.mem_cons_of_mem _ ha, hbelow ha⟩
        · rintro ⟨ha, hlt⟩
          rcases List.mem_cons.1 ha with rfl | ha
          · omega
          · exact ha
    · rw [if_neg hm]
      have hin : name ∈ rest := (List.mem_cons.1 hname).resolve_left (Ne.symm hm)
      obtain ⟨habove, hbelow⟩ := ih hin hrest
      have hmember : f name < f member := hfirst name hin
      constructor
      · rw [List.mem_cons, habove, List.mem_cons]
        constructor
        · rintro (rfl | ⟨ha, hle⟩)
          · exact ⟨.inl rfl, Nat.le_of_lt hmember⟩
          · exact ⟨.inr ha, hle⟩
        · rintro ⟨rfl | ha, hle⟩
          · exact .inl rfl
          · exact .inr ⟨ha, hle⟩
      · rw [hbelow, List.mem_cons]
        constructor
        · rintro ⟨ha, hlt⟩
          exact ⟨.inr ha, hlt⟩
        · rintro ⟨rfl | ha, hlt⟩
          · omega
          · exact ⟨ha, hlt⟩

end Primitives

/-! ## The invariant -/

/-- The names that are being visited, the latest first. -/
def names (visits : List Visit) : List String := visits.map (·.name)

/-- A dependency that was looked at. -/
def Looked (deps : Dependencies) (visits : List Visit) (a b : String) : Prop :=
  deps.Leads a b ∧ ∀ v ∈ visits, v.name = a → b ∉ v.ahead

/-- A name whose component is complete. -/
def Gone (w : Walk) (name : String) : Prop := name ∈ w.met ∧ name ∉ w.stack

/-- Meeting a name completes no component. -/
theorem gone_enter {w : Walk} {name other : String} (hnew : name ∉ w.met) :
    (w.enter name).Gone other ↔ w.Gone other := by
  unfold Gone
  rw [mem_met_enter, mem_stack_enter]
  constructor
  · rintro ⟨ha | ha, hns⟩
    · exact ⟨ha, fun hs => hns (.inr hs)⟩
    · exact absurd (.inl ha) hns
  · rintro ⟨ha, hns⟩
    refine ⟨.inl ha, ?_⟩
    rintro (rfl | hs)
    · exact hnew ha
    · exact hns hs

/-- What holds between two steps of a search. -/
structure Sound (deps : Dependencies) (w : Walk) (visits : List Visit) : Prop where
  keys : ∀ a ∈ w.met, deps.has a = true
  stack_met : ∀ a ∈ w.stack, a ∈ w.met
  sorted : w.stack.Pairwise fun a b => w.index b < w.index a
  visiting : ∀ c ∈ names visits, c ∈ w.stack
  latest : (names visits).Pairwise fun a b => w.index b < w.index a
  chain : (names visits).Pairwise fun a b => deps.Reaches b a
  ahead : ∀ v ∈ visits, ∀ b ∈ v.ahead, b ∈ deps.of v.name
  /-- Below every name of the stack there is a visit, which is why the last visit empties it. -/
  bottom : ∀ a ∈ w.stack, ∃ c ∈ names visits, w.index c ≤ w.index a
  reached : ∀ c ∈ names visits, ∀ a ∈ w.stack, w.index c ≤ w.index a → deps.Reaches c a
  looked_met : ∀ a ∈ w.met, ∀ b, Looked deps visits a b → b ∈ w.met
  /-- What was found from above a visit lies no lower than the lowlink of that or of a later one. -/
  looked_low : ∀ c ∈ names visits, ∀ a ∈ w.stack, w.index c ≤ w.index a → ∀ b ∈ w.stack,
    Looked deps visits a b → ∃ q ∈ names visits, w.index c ≤ w.index q ∧ w.lowlink q ≤ w.index b
  low_le : ∀ a ∈ w.stack, w.lowlink a ≤ w.index a
  low_reaches : ∀ a ∈ w.stack, ∃ b ∈ w.stack, w.index b = w.lowlink a ∧ deps.Reaches a b
  /-- A visit that has ended and left its name on the stack had found something lower. -/
  low_ne : ∀ a ∈ w.stack, a ∉ names visits → w.lowlink a ≠ w.index a
  gone : ∀ a b, w.Gone a → deps.Leads a b → w.Gone b
  found : ∀ a, a ∈ w.recursive ↔ w.Gone a ∧ TransGen deps.Leads a a
  once : w.recursive.Nodup

theorem sound_start (deps : Dependencies) : Sound deps {} [] where
  keys := by simp
  stack_met := by simp
  sorted := .nil
  visiting := by simp [names]
  latest := .nil
  chain := .nil
  ahead := by simp
  bottom := by simp
  reached := by simp [names]
  looked_met := by simp
  looked_low := by simp [names]
  low_le := by simp
  low_reaches := by simp
  low_ne := by simp
  gone := by simp [Gone]
  found := by simp [Gone]
  once := .nil

section Steps

variable {deps : Dependencies} {w : Walk} {visits callers : List Visit} {name next : String}
  {ahead : List String}

namespace Sound

theorem eq_of_index (h : Sound deps w visits) {a b : String} (ha : a ∈ w.stack)
    (he : w.index a = w.index b) : a = b := Walk.eq_of_index (h.stack_met a ha) he

theorem stack_nodup (h : Sound deps w visits) : w.stack.Nodup :=
  h.sorted.imp fun {a b} hab he => by
    rw [he] at hab
    exact Nat.lt_irrefl _ hab

/-! ### Meeting a name -/

/-- From the new name nothing was looked at, and from the others at most the new name besides. -/
theorem looked_enter {later : List Visit} {a b : String}
    (hlooked : Looked deps later a b → b = next ∨ Looked deps visits a b)
    (hl : Looked deps (⟨next, deps.of next⟩ :: later) a b) :
    a ≠ next ∧ (b = next ∨ Looked deps visits a b) := by
  obtain ⟨hleads, hnot⟩ := hl
  constructor
  · rintro rfl
    exact hnot _ List.mem_cons_self rfl hleads.1
  · exact hlooked ⟨hleads, fun v hv => hnot v (List.mem_cons_of_mem _ hv)⟩

section Enter

variable (h : Sound deps w visits) (hnew : next ∉ w.met)

include h

theorem index_enter {a : String} (ha : a ∈ w.stack) : (w.enter next).index a = w.index a :=
  Walk.index_enter (h.stack_met a ha)

/-- The new name lies above the stack. -/
theorem index_lt {a : String} (ha : a ∈ w.stack) : w.index a < w.met.length :=
  Walk.index_lt (h.stack_met a ha)

include hnew

theorem not_mem_stack : next ∉ w.stack := fun hm => hnew (h.stack_met next hm)

theorem lowlink_enter {a : String} (ha : a ∈ w.stack) :
    (w.enter next).lowlink a = w.lowlink a := by
  have hne : next ≠ a := fun he => h.not_mem_stack hnew (he ▸ ha)
  rw [Walk.lowlink_enter, if_neg hne]

/-- What lies above a visit was found from it, the new name included. -/
theorem reached_enter (hreach : ∀ c ∈ names visits, deps.Reaches c next) {c a : String}
    (hc : c = next ∨ c ∈ names visits) (ha : a ∈ (w.enter next).stack)
    (hle : (w.enter next).index c ≤ (w.enter next).index a) : deps.Reaches c a := by
  rcases mem_stack_enter.1 ha with rfl | has
  · rcases hc with rfl | hcv
    · exact .refl
    · exact hreach c hcv
  · rw [h.index_enter has] at hle
    rcases hc with rfl | hcv
    · have hlt := h.index_lt has
      rw [index_enter_self hnew] at hle
      omega
    · rw [h.index_enter (h.visiting c hcv)] at hle
      exact h.reached c hcv a has hle

/-- The new name answers for itself, and what was looked at before is answered for as it was. -/
theorem looked_low_enter {c a b : String} (hc : c ∈ names visits) (ha : a ∈ w.stack)
    (hle : w.index c ≤ w.index a) (hb : b ∈ (w.enter next).stack)
    (hl : b = next ∨ Looked deps visits a b) :
    ∃ q ∈ next :: names visits, (w.enter next).index c ≤ (w.enter next).index q ∧
      (w.enter next).lowlink q ≤ (w.enter next).index b := by
  have hcs : c ∈ w.stack := h.visiting c hc
  rcases hl with rfl | hl
  · have hlt := h.index_lt hcs
    refine ⟨b, List.mem_cons_self, ?_, ?_⟩
    · rw [h.index_enter hcs, index_enter_self hnew]
      omega
    · exact Nat.le_of_eq (by rw [Walk.lowlink_enter, if_pos rfl, index_enter_self hnew])
  · have hbm : b ∈ w.met := h.looked_met a (h.stack_met a ha) b hl
    have hbne : b ≠ next := fun he => hnew (he ▸ hbm)
    have hbs : b ∈ w.stack := (mem_stack_enter.1 hb).resolve_left hbne
    obtain ⟨q, hq, hcq, hqb⟩ := h.looked_low c hc a ha hle b hbs hl
    have hqs : q ∈ w.stack := h.visiting q hq
    refine ⟨q, List.mem_cons_of_mem _ hq, ?_, ?_⟩
    · rw [h.index_enter hcs, h.index_enter hqs]
      exact hcq
    · rw [h.lowlink_enter hnew hqs, h.index_enter hbs]
      exact hqb

/-- The indices of the new name and of a list on the stack that falls fall. -/
theorem pairwise_enter {rest : List String} (hrest : ∀ a ∈ rest, a ∈ w.stack)
    (hp : rest.Pairwise fun a b => w.index b < w.index a) :
    (next :: rest).Pairwise fun a b => (w.enter next).index b < (w.enter next).index a := by
  refine List.pairwise_cons.2 ⟨fun a ha => ?_, hp.imp_of_mem fun {a b} ha hb hab => ?_⟩
  · rw [h.index_enter (hrest a ha), index_enter_self hnew]
    exact h.index_lt (hrest a ha)
  · rw [h.index_enter (hrest a ha), h.index_enter (hrest b hb)]
    exact hab

/-- A name that is met becomes the latest visit; `next` may be dropped from what lies ahead. -/
theorem enter (hkey : deps.has next = true) (hreach : ∀ c ∈ names visits, deps.Reaches c next)
    (later : List Visit) (hnames : names later = names visits)
    (hahead : ∀ v ∈ later, ∀ b ∈ v.ahead, b ∈ deps.of v.name)
    (hlooked : ∀ a b, Looked deps later a b → b = next ∨ Looked deps visits a b) :
    Sound deps (w.enter next) (⟨next, deps.of next⟩ :: later) := by
  have hvisits : names (⟨next, deps.of next⟩ :: later) = next :: names visits :=
    congrArg (next :: ·) hnames
  have hself : (w.enter next).lowlink next = (w.enter next).index next := by
    rw [Walk.lowlink_enter, if_pos rfl, index_enter_self hnew]
  exact
    { keys := by
        intro a ha
        rcases mem_met_enter.1 ha with ha | rfl
        · exact h.keys a ha
        · exact hkey
      stack_met := by
        intro a ha
        rcases mem_stack_enter.1 ha with rfl | ha
        · exact mem_met_enter.2 (.inr rfl)
        · exact mem_met_enter.2 (.inl (h.stack_met a ha))
      sorted := h.pairwise_enter hnew (fun _ ha => ha) h.sorted
      visiting := by
        rw [hvisits]
        intro c hc
        exact mem_stack_enter.2 ((List.mem_cons.1 hc).imp_right (h.visiting c))
      latest := by
        rw [hvisits]
        exact h.pairwise_enter hnew h.visiting h.latest
      chain := by
        rw [hvisits]
        exact List.pairwise_cons.2 ⟨hreach, h.chain⟩
      ahead := by
        intro v hv b hb
        rcases List.mem_cons.1 hv with rfl | hv
        · exact hb
        · exact hahead v hv b hb
      bottom := by
        rw [hvisits]
        intro a ha
        rcases mem_stack_enter.1 ha with rfl | ha
        · exact ⟨a, List.mem_cons_self, Nat.le_refl _⟩
        · obtain ⟨c, hc, hle⟩ := h.bottom a ha
          refine ⟨c, List.mem_cons_of_mem _ hc, ?_⟩
          rw [h.index_enter (h.visiting c hc), h.index_enter ha]
          exact hle
      reached := by
        rw [hvisits]
        intro c hc a ha hle
        exact h.reached_enter hnew hreach (List.mem_cons.1 hc) ha hle
      looked_met := by
        intro a ha b hl
        obtain ⟨hane, hb⟩ := looked_enter (hlooked a b) hl
        have ham : a ∈ w.met := (mem_met_enter.1 ha).resolve_right hane
        exact mem_met_enter.2 (hb.symm.imp_left (h.looked_met a ham b))
      looked_low := by
        rw [hvisits]
        intro c hc a ha hle b hb hl
        obtain ⟨hane, hb'⟩ := looked_enter (hlooked a b) hl
        have has : a ∈ w.stack := (mem_stack_enter.1 ha).resolve_left hane
        rw [h.index_enter has] at hle
        rcases List.mem_cons.1 hc with rfl | hcv
        · have hlt := h.index_lt has
          rw [index_enter_self hnew] at hle
          omega
        · rw [h.index_enter (h.visiting c hcv)] at hle
          exact h.looked_low_enter hnew hcv has hle hb hb'
      low_le := by
        intro a ha
        rcases mem_stack_enter.1 ha with rfl | ha
        · exact Nat.le_of_eq hself
        · rw [h.lowlink_enter hnew ha, h.index_enter ha]
          exact h.low_le a ha
      low_reaches := by
        intro a ha
        rcases mem_stack_enter.1 ha with rfl | ha
        · exact ⟨a, mem_stack_enter.2 (.inl rfl), hself.symm, .refl⟩
        · obtain ⟨b, hb, hidx, hr⟩ := h.low_reaches a ha
          refine ⟨b, mem_stack_enter.2 (.inr hb), ?_, hr⟩
          rw [h.index_enter hb, h.lowlink_enter hnew ha]
          exact hidx
      low_ne := by
        rw [hvisits]
        intro a ha hnot
        rw [List.mem_cons, not_or] at hnot
        have has : a ∈ w.stack := (mem_stack_enter.1 ha).resolve_left hnot.1
        rw [h.lowlink_enter hnew has, h.index_enter has]
        exact h.low_ne a has hnot.2
      gone := by
        intro a b ha hab
        exact (gone_enter hnew).2 (h.gone a b ((gone_enter hnew).1 ha) hab)
      found := by
        intro a
        rw [gone_enter hnew]
        exact h.found a
      once := h.once }

end Enter

/-! ### Looking at a name -/

/-- A lowlink may fall to the index of a name on the stack that can be reached. -/
theorem lower (h : Sound deps w visits) (hname : name ∈ names visits) {bound : Nat}
    (hbound : w.lowlink name ≤ bound ∨ ∃ b ∈ w.stack, w.index b = bound ∧ deps.Reaches name b) :
    Sound deps (w.lower name bound) visits := by
  have hle : ∀ a, (w.lower name bound).lowlink a ≤ w.lowlink a := by
    intro a
    rw [lowlink_lower]
    split
    · next he =>
      rw [he]
      exact Nat.min_le_left _ _
    · exact Nat.le_refl _
  exact
    { keys := h.keys
      stack_met := h.stack_met
      sorted := h.sorted
      visiting := h.visiting
      latest := h.latest
      chain := h.chain
      ahead := h.ahead
      bottom := h.bottom
      reached := h.reached
      looked_met := h.looked_met
      looked_low := by
        intro c hc a ha hca b hb hl
        obtain ⟨q, hq, hcq, hqb⟩ := h.looked_low c hc a ha hca b hb hl
        exact ⟨q, hq, hcq, Nat.le_trans (hle q) hqb⟩
      low_le := fun a ha => Nat.le_trans (hle a) (h.low_le a ha)
      low_reaches := by
        intro a ha
        rw [lowlink_lower]
        by_cases he : name = a
        · subst he
          rw [if_pos rfl]
          rcases Nat.le_total (w.lowlink name) bound with hl | hl
          · rw [Nat.min_eq_left hl]
            exact h.low_reaches name ha
          · rw [Nat.min_eq_right hl]
            rcases hbound with hb | hb
            · rw [Nat.le_antisymm hl hb]
              exact h.low_reaches name ha
            · exact hb
        · rw [if_neg he]
          exact h.low_reaches a ha
      low_ne := by
        intro a ha hnot
        have he : name ≠ a := fun he => hnot (he ▸ hname)
        rw [lowlink_lower, if_neg he]
        exact h.low_ne a ha hnot
      gone := h.gone
      found := h.found
      once := h.once }

/-- Nothing is new about what was looked at, except for the name that is dropped. -/
theorem looked_drop (next : String) {a b : String}
    (hl : Looked deps (⟨name, ahead⟩ :: callers) a b) :
    a = name ∧ b = next ∨ Looked deps (⟨name, next :: ahead⟩ :: callers) a b := by
  by_cases hab : a = name ∧ b = next
  · exact .inl hab
  · refine .inr ⟨hl.1, fun v hv hva => ?_⟩
    rcases List.mem_cons.1 hv with rfl | hv
    · have hrest : b ∉ ahead := hl.2 _ List.mem_cons_self hva
      have hne : b ≠ next := fun hb => hab ⟨hva.symm, hb⟩
      exact fun hb => (List.mem_cons.1 hb).elim hne hrest
    · exact hl.2 v (List.mem_cons_of_mem _ hv) hva

theorem ahead_drop (h : Sound deps w (⟨name, next :: ahead⟩ :: callers)) :
    ∀ v ∈ (⟨name, ahead⟩ :: callers : List Visit), ∀ b ∈ v.ahead, b ∈ deps.of v.name := by
  intro v hv b hb
  rcases List.mem_cons.1 hv with rfl | hv
  · exact h.ahead _ List.mem_cons_self b (List.mem_cons_of_mem _ hb)
  · exact h.ahead v (List.mem_cons_of_mem _ hv) b hb

/-- A name that lies ahead may be passed by if it was met and the lowlink accounts for it. -/
theorem pass (h : Sound deps w (⟨name, next :: ahead⟩ :: callers))
    (hnext : deps.Leads name next →
      next ∈ w.met ∧ (next ∈ w.stack → w.lowlink name ≤ w.index next)) :
    Sound deps w (⟨name, ahead⟩ :: callers) :=
  { h with
    ahead := h.ahead_drop
    looked_met := by
      intro a ha b hl
      rcases looked_drop next hl with ⟨rfl, rfl⟩ | hl'
      · exact (hnext hl.1).1
      · exact h.looked_met a ha b hl'
    looked_low := by
      intro c hc a ha hca b hb hl
      rcases looked_drop next hl with ⟨rfl, rfl⟩ | hl'
      · exact ⟨a, List.mem_cons_self, hca, (hnext hl.1).2 hb⟩
      · exact h.looked_low c hc a ha hca b hb hl' }

theorem look (h : Sound deps w (⟨name, next :: ahead⟩ :: callers))
    (hskip : deps.has next = true → next ∈ w.met) :
    Sound deps (w.look deps name next) (⟨name, ahead⟩ :: callers) := by
  unfold Walk.look
  by_cases hon : (deps.has next && w.stack.contains next) = true
  · rw [if_pos hon]
    rw [Bool.and_eq_true, List.contains_iff_mem] at hon
    have hleads : deps.Leads name next :=
      ⟨h.ahead _ List.mem_cons_self next List.mem_cons_self, hon.1⟩
    have hlow : Sound deps (w.lower name (w.index next)) (⟨name, next :: ahead⟩ :: callers) :=
      h.lower List.mem_cons_self (.inr ⟨next, hon.2, rfl, .single hleads⟩)
    refine hlow.pass fun _ => ⟨hskip hon.1, fun _ => ?_⟩
    rw [lowlink_lower, if_pos rfl]
    exact Nat.min_le_right _ _
  · rw [if_neg hon]
    refine h.pass fun hl => ⟨hskip hl.2, fun hs => ?_⟩
    rw [Bool.and_eq_true, List.contains_iff_mem] at hon
    exact absurd ⟨hl.2, hs⟩ hon

end Sound

end Steps

end Walk

end ShapeSchema
