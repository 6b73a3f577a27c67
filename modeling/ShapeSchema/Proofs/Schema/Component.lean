import ShapeSchema.Proofs.Schema.Walk

/-!
# Complete components

When a visit ends at the root of a component, the names from the root upwards are the names that it
reaches and that reach it (`Sound.closed`, `Sound.returns`). What is taken off the stack is therefore
classified for good (`Sound.onCycle_iff`, `Sound.settle`), and a visit that ends elsewhere hands its
lowlink on (`Sound.leave`). With that every step of a search preserves the invariant, and so does a
whole run (`Sound.run`, `Sound.visit`).
-/

namespace ShapeSchema.Walk

open Relation

variable {deps : Dependencies} {w : Walk} {visits callers : List Visit} {name next : String}
  {ahead : List String}

/-! ## Settling -/

theorem index_settle (a : String) : (w.settle deps name).index a = w.index a := by
  unfold index
  rw [settle_met]

theorem lowlink_settle (a : String) : (w.settle deps name).lowlink a = w.lowlink a := by
  unfold Walk.settle
  split <;> rfl

theorem settle_stack (hroot : w.lowlink name = w.index name) :
    (w.settle deps name).stack = (popTo name w.stack).2 := by
  unfold Walk.settle
  rw [if_pos hroot]

theorem settle_recursive (hroot : w.lowlink name = w.index name) :
    (w.settle deps name).recursive =
      if 1 < (popTo name w.stack).1.length ∨ name ∈ deps.of name
      then w.recursive ++ (popTo name w.stack).1 else w.recursive := by
  unfold Walk.settle
  rw [if_pos hroot]
  simp

namespace Sound

/-! ## The end of a visit -/

theorem looked_ended {a b : String} (hl : Looked deps callers a b) :
    Looked deps (⟨name, []⟩ :: callers) a b := by
  refine ⟨hl.1, fun v hv hva => ?_⟩
  rcases List.mem_cons.1 hv with rfl | hv
  · exact List.not_mem_nil
  · exact hl.2 v hv hva

theorem index_caller_lt (h : Sound deps w (⟨name, []⟩ :: callers)) {c : String}
    (hc : c ∈ names callers) : w.index c < w.index name := (List.pairwise_cons.1 h.latest).1 c hc

theorem gone_of_reaches (h : Sound deps w visits) {a b : String} (ha : w.Gone a)
    (hr : deps.Reaches a b) : w.Gone b := by
  induction hr with
  | refl => exact ha
  | tail _ hstep ih => exact h.gone _ _ ih hstep

section Root

variable (h : Sound deps w (⟨name, []⟩ :: callers)) (hroot : w.lowlink name = w.index name)

include h

/-- From the root upwards everything was looked at. -/
theorem looked_above {a b : String} (hle : w.index name ≤ w.index a) (hl : deps.Leads a b) :
    Looked deps (⟨name, []⟩ :: callers) a b := by
  refine looked_ended ⟨hl, fun v hv hva => ?_⟩
  have hlt := h.index_caller_lt (List.mem_map_of_mem hv)
  rw [hva] at hlt
  omega

theorem mem_component {a : String} :
    a ∈ (popTo name w.stack).1 ↔ a ∈ w.stack ∧ w.index name ≤ w.index a :=
  (mem_popTo (h.visiting name List.mem_cons_self) h.sorted a).1

/-- The root reaches every member of its component. -/
theorem reaches_component {a : String} (ha : a ∈ (popTo name w.stack).1) :
    deps.Reaches name a :=
  h.reached name List.mem_cons_self a (h.mem_component.1 ha).1 (h.mem_component.1 ha).2

include hroot

theorem closed_step {a b : String} (ha : a ∈ w.stack) (hle : w.index name ≤ w.index a)
    (hl : deps.Leads a b) : w.Gone b ∨ b ∈ w.stack ∧ w.index name ≤ w.index b := by
  have hlooked := h.looked_above hle hl
  have hmet : b ∈ w.met := h.looked_met a (h.stack_met a ha) b hlooked
  by_cases hb : b ∈ w.stack
  · obtain ⟨q, hq, hnq, hqb⟩ := h.looked_low name List.mem_cons_self a ha hle b hb hlooked
    rcases List.mem_cons.1 hq with rfl | hq
    · exact .inr ⟨hb, hroot ▸ hqb⟩
    · have hlt := h.index_caller_lt hq
      omega
  · exact .inl ⟨hmet, hb⟩

/-- What can be reached from the root upwards lies there, or its component is complete. -/
theorem closed {a b : String} (ha : a ∈ w.stack) (hle : w.index name ≤ w.index a)
    (hr : deps.Reaches a b) : w.Gone b ∨ b ∈ w.stack ∧ w.index name ≤ w.index b := by
  induction hr with
  | refl => exact .inr ⟨ha, hle⟩
  | tail _ hstep ih =>
    rcases ih with hgone | ⟨hin, habove⟩
    · exact .inl (h.gone _ _ hgone hstep)
    · exact h.closed_step hroot hin habove hstep

/-- The names from the root upwards lead back to it: a lowlink is an index further down. -/
theorem returns {a : String} (ha : a ∈ w.stack) (hle : w.index name ≤ w.index a) :
    deps.Reaches a name := by
  induction hn : w.index a using Nat.strongRecOn generalizing a with
  | _ n ih =>
    by_cases he : a = name
    · rw [he]
    · have hnot : a ∉ names (⟨name, []⟩ :: callers) := by
        intro hm
        have hlt := h.index_caller_lt ((List.mem_cons.1 hm).resolve_left he)
        omega
      obtain ⟨b, hb, hidx, hr⟩ := h.low_reaches a ha
      have hlow := h.low_le a ha
      have hne := h.low_ne a ha hnot
      rcases h.closed hroot ha hle hr with hgone | ⟨-, hb'⟩
      · exact absurd hb hgone.2
      · have hlt : w.index b < n := by omega
        exact hr.trans (ih (w.index b) hlt hb hb' rfl)

/-- A root that makes up its component by itself lies on a cycle only as its own dependency. -/
theorem self_of_cycle {a : String} (ha : a ∈ (popTo name w.stack).1)
    (hlen : ¬ 1 < (popTo name w.stack).1.length) (hcycle : TransGen deps.Leads a a) :
    name ∈ deps.of name := by
  have honly : ∀ x ∈ (popTo name w.stack).1, x = name := by
    have hname : name ∈ (popTo name w.stack).1 :=
      h.mem_component.2 ⟨h.visiting name List.mem_cons_self, Nat.le_refl _⟩
    generalize (popTo name w.stack).1 = cs at hlen hname
    rcases cs with _ | ⟨c, _ | ⟨d, rest⟩⟩
    · cases hname
    · intro x hx
      rw [List.mem_singleton.1 hx, List.mem_singleton.1 hname]
    · simp at hlen
  obtain ⟨hstack, hle⟩ := h.mem_component.1 ha
  obtain ⟨b, hab, hba⟩ := TransGen.head'_iff.1 hcycle
  rcases h.closed_step hroot hstack hle hab with hgone | hb
  · exact absurd hstack (h.gone_of_reaches hgone hba).2
  · rw [honly a ha, honly b (h.mem_component.2 hb)] at hab
    exact hab.1

/-- Two members of a component lie on a cycle through the root. -/
theorem cycle_of_two {a : String} (ha : a ∈ (popTo name w.stack).1)
    (hlen : 1 < (popTo name w.stack).1.length) : TransGen deps.Leads a a := by
  have hback : ∀ b ∈ (popTo name w.stack).1, deps.Reaches b name := fun b hb =>
    h.returns hroot (h.mem_component.1 hb).1 (h.mem_component.1 hb).2
  have hnodup : (popTo name w.stack).1.Nodup := h.stack_nodup.sublist (popTo_sublist _ _).1
  obtain ⟨b, hb, hne⟩ : ∃ b ∈ (popTo name w.stack).1, b ≠ a := by
    generalize (popTo name w.stack).1 = cs at hlen hnodup
    rcases cs with _ | ⟨c, _ | ⟨d, rest⟩⟩
    · cases hlen
    · simp at hlen
    by_cases hca : c = a
    · refine ⟨d, by simp, fun hda => ?_⟩
      rw [hca, hda] at hnodup
      simp at hnodup
    · exact ⟨c, by simp, hca⟩
  have hab : deps.Reaches a b := (hback a ha).trans (h.reaches_component hb)
  have hba : deps.Reaches b a := (hback b hb).trans (h.reaches_component ha)
  rcases reflTransGen_iff_eq_or_transGen.1 hab with he | hplus
  · exact absurd he hne
  · exact hplus.trans_left hba

/-- The members of the component lie on a cycle if there are several or the root leads to itself. -/
theorem onCycle_iff {a : String} (ha : a ∈ w.stack) (hle : w.index name ≤ w.index a) :
    TransGen deps.Leads a a ↔
      1 < (popTo name w.stack).1.length ∨ name ∈ deps.of name := by
  have hin : a ∈ (popTo name w.stack).1 := h.mem_component.2 ⟨ha, hle⟩
  constructor
  · intro hcycle
    by_cases hlen : 1 < (popTo name w.stack).1.length
    · exact .inl hlen
    · exact .inr (h.self_of_cycle hroot hin hlen hcycle)
  · rintro (hlen | hself)
    · exact h.cycle_of_two hroot hin hlen
    · have hname : name ∈ w.stack := h.visiting name List.mem_cons_self
      have hleads : deps.Leads name name := ⟨hself, h.keys name (h.stack_met name hname)⟩
      exact (TransGen.tail' (h.returns hroot ha hle) hleads).trans_left (h.reaches_component hin)

theorem mem_settle {a : String} :
    a ∈ (w.settle deps name).stack ↔ a ∈ w.stack ∧ w.index a < w.index name := by
  rw [settle_stack hroot]
  exact (mem_popTo (h.visiting name List.mem_cons_self) h.sorted a).2

theorem gone_settle {a : String} :
    (w.settle deps name).Gone a ↔ w.Gone a ∨ a ∈ w.stack ∧ w.index name ≤ w.index a := by
  unfold Gone
  rw [settle_met, h.mem_settle hroot]
  constructor
  · rintro ⟨ha, hnot⟩
    by_cases hs : a ∈ w.stack
    · exact .inr ⟨hs, by_contra fun hlt => hnot ⟨hs, by omega⟩⟩
    · exact .inl ⟨ha, hs⟩
  · rintro (⟨ha, hs⟩ | ⟨hs, hle⟩)
    · exact ⟨ha, fun hb => hs hb.1⟩
    · exact ⟨h.stack_met a hs, fun hb => by omega⟩

/-- Everything that leaves a complete component leads into complete ones. -/
theorem gone_closed_settle {a b : String} (ha : (w.settle deps name).Gone a)
    (hl : deps.Leads a b) : (w.settle deps name).Gone b := by
  rw [h.gone_settle hroot] at ha ⊢
  rcases ha with ha | ⟨has, hle⟩
  · exact .inl (h.gone a b ha hl)
  · exact h.closed_step hroot has hle hl

/-- The component is classified for good. -/
theorem found_settle {a : String} : a ∈ (w.settle deps name).recursive ↔
    (w.settle deps name).Gone a ∧ TransGen deps.Leads a a := by
  rw [settle_recursive hroot, h.gone_settle hroot]
  split
  · next hcycle =>
    rw [List.mem_append, h.found, h.mem_component]
    constructor
    · rintro (⟨ha, hc⟩ | ⟨has, hle⟩)
      · exact ⟨.inl ha, hc⟩
      · exact ⟨.inr ⟨has, hle⟩, (h.onCycle_iff hroot has hle).2 hcycle⟩
    · rintro ⟨ha | ha, hc⟩
      · exact .inl ⟨ha, hc⟩
      · exact .inr ha
  · next hcycle =>
    rw [h.found]
    constructor
    · rintro ⟨ha, hc⟩
      exact ⟨.inl ha, hc⟩
    · rintro ⟨ha | ⟨has, hle⟩, hc⟩
      · exact ⟨ha, hc⟩
      · exact absurd ((h.onCycle_iff hroot has hle).1 hc) hcycle

/-- The component was on the stack, so that none of its members was classified before. -/
theorem once_settle : (w.settle deps name).recursive.Nodup := by
  rw [settle_recursive hroot]
  split
  · refine List.nodup_append.2 ⟨h.once, h.stack_nodup.sublist (popTo_sublist _ _).1, ?_⟩
    intro a ha b hb he
    rw [he] at ha
    exact ((h.found b).1 ha).1.2 ((h.mem_component).1 hb).1
  · exact h.once

/-- At the root of a component the names from there upwards are settled. -/
theorem settle : Sound deps (w.settle deps name) callers where
  keys := by
    rw [settle_met]
    exact h.keys
  stack_met := by
    intro a ha
    rw [settle_met]
    exact h.stack_met a ((h.mem_settle hroot).1 ha).1
  sorted := by
    rw [settle_stack hroot]
    simp only [index_settle]
    exact h.sorted.sublist (popTo_sublist _ _).2
  visiting := by
    intro c hc
    exact (h.mem_settle hroot).2 ⟨h.visiting c (List.mem_cons_of_mem _ hc), h.index_caller_lt hc⟩
  latest := by
    simp only [index_settle]
    exact (List.pairwise_cons.1 h.latest).2
  chain := (List.pairwise_cons.1 h.chain).2
  ahead := fun u hu => h.ahead u (List.mem_cons_of_mem _ hu)
  bottom := by
    intro a ha
    obtain ⟨has, hlt⟩ := (h.mem_settle hroot).1 ha
    obtain ⟨c, hc, hle⟩ := h.bottom a has
    rcases List.mem_cons.1 hc with rfl | hc
    · omega
    · exact ⟨c, hc, by rw [index_settle, index_settle]; exact hle⟩
  reached := by
    intro c hc a ha hle
    rw [index_settle, index_settle] at hle
    exact h.reached c (List.mem_cons_of_mem _ hc) a ((h.mem_settle hroot).1 ha).1 hle
  looked_met := by
    intro a ha b hl
    rw [settle_met] at ha ⊢
    exact h.looked_met a ha b (looked_ended hl)
  looked_low := by
    intro c hc a ha hle b hb hl
    rw [index_settle, index_settle] at hle
    obtain ⟨hbs, hblt⟩ := (h.mem_settle hroot).1 hb
    obtain ⟨q, hq, hcq, hqb⟩ := h.looked_low c (List.mem_cons_of_mem _ hc) a
      ((h.mem_settle hroot).1 ha).1 hle b hbs (looked_ended hl)
    rcases List.mem_cons.1 hq with rfl | hq
    · omega
    · refine ⟨q, hq, ?_, ?_⟩
      · rw [index_settle, index_settle]
        exact hcq
      · rw [lowlink_settle, index_settle]
        exact hqb
  low_le := by
    intro a ha
    rw [lowlink_settle, index_settle]
    exact h.low_le a ((h.mem_settle hroot).1 ha).1
  low_reaches := by
    intro a ha
    obtain ⟨has, hlt⟩ := (h.mem_settle hroot).1 ha
    obtain ⟨b, hb, hidx, hr⟩ := h.low_reaches a has
    have hle := h.low_le a has
    refine ⟨b, (h.mem_settle hroot).2 ⟨hb, by omega⟩, ?_, hr⟩
    rw [index_settle, lowlink_settle]
    exact hidx
  low_ne := by
    intro a ha hnot
    obtain ⟨has, hlt⟩ := (h.mem_settle hroot).1 ha
    rw [lowlink_settle, index_settle]
    refine h.low_ne a has fun hm => ?_
    rcases List.mem_cons.1 hm with rfl | hm
    · omega
    · exact hnot hm
  gone := fun _ _ ha hab => h.gone_closed_settle hroot ha hab
  found := fun _ => h.found_settle hroot
  once := h.once_settle hroot

end Root

/-- A visit that has found something lower ends, and its caller accounts for that. -/
theorem leave {caller : Visit} (h : Sound deps w (⟨name, []⟩ :: caller :: callers))
    (hne : w.lowlink name ≠ w.index name) (hle : w.lowlink caller.name ≤ w.lowlink name) :
    Sound deps w (caller :: callers) := by
  have hcaller : caller.name ∈ names (caller :: callers) := List.mem_cons_self
  have hlt : w.index caller.name < w.index name := h.index_caller_lt hcaller
  have hlatest := List.pairwise_cons.1 h.latest
  exact
    { h with
      visiting := fun c hc => h.visiting c (List.mem_cons_of_mem _ hc)
      latest := hlatest.2
      chain := (List.pairwise_cons.1 h.chain).2
      ahead := fun v hv => h.ahead v (List.mem_cons_of_mem _ hv)
      bottom := by
        intro a ha
        obtain ⟨c, hc, hca⟩ := h.bottom a ha
        rcases List.mem_cons.1 hc with rfl | hc
        · exact ⟨caller.name, hcaller, by omega⟩
        · exact ⟨c, hc, hca⟩
      reached := fun c hc => h.reached c (List.mem_cons_of_mem _ hc)
      looked_met := fun a ha b hl => h.looked_met a ha b (looked_ended hl)
      looked_low := by
        intro c hc a ha hca b hb hl
        obtain ⟨q, hq, hcq, hqb⟩ := h.looked_low c (List.mem_cons_of_mem _ hc) a ha hca b hb
          (looked_ended hl)
        rcases List.mem_cons.1 hq with rfl | hq
        · have hcc : w.index c ≤ w.index caller.name := by
            rcases List.mem_cons.1 hc with rfl | hc
            · exact Nat.le_refl _
            · exact Nat.le_of_lt ((List.pairwise_cons.1 hlatest.2).1 c hc)
          exact ⟨caller.name, hcaller, hcc, Nat.le_trans hle hqb⟩
        · exact ⟨q, hq, hcq, hqb⟩
      low_ne := by
        intro a ha hnot
        by_cases he : a = name
        · rw [he]
          exact hne
        · exact h.low_ne a ha fun hm => hnot ((List.mem_cons.1 hm).resolve_left he) }

theorem finish_root (h : Sound deps w (⟨name, []⟩ :: callers))
    (hroot : w.lowlink name = w.index name) :
    Sound deps ((w.settle deps name).handOn name callers) callers := by
  have hs := h.settle hroot
  cases callers with
  | nil => exact hs
  | cons caller callers =>
    have hcaller : caller.name ∈ names (caller :: callers) := List.mem_cons_self
    -- The caller was met earlier, so that its lowlink is lower already.
    have hle := h.low_le caller.name (h.visiting _ (List.mem_cons_of_mem _ hcaller))
    have hlt := h.index_caller_lt hcaller
    refine hs.lower hcaller (.inl ?_)
    rw [lowlink_settle, lowlink_settle]
    omega

theorem finish_inner (h : Sound deps w (⟨name, []⟩ :: callers))
    (hroot : w.lowlink name ≠ w.index name) : Sound deps (w.handOn name callers) callers := by
  have hname : name ∈ w.stack := h.visiting name List.mem_cons_self
  obtain ⟨b, hb, hidx, hr⟩ := h.low_reaches name hname
  cases callers with
  | nil =>
    -- The last visit began below everything else, so that it ends as a root.
    obtain ⟨c, hc, hcb⟩ := h.bottom b hb
    have hcn : c = name := List.mem_singleton.1 hc
    have hle := h.low_le name hname
    rw [hcn] at hcb
    omega
  | cons caller callers =>
    have hcaller : caller.name ∈ names (caller :: callers) := List.mem_cons_self
    have hlt := h.index_caller_lt hcaller
    have hne : caller.name ≠ name := fun he => by
      rw [he] at hlt
      omega
    have hcalled : deps.Reaches caller.name name := (List.pairwise_cons.1 h.chain).1 _ hcaller
    have hs : Sound deps (w.lower caller.name (w.lowlink name))
        (⟨name, []⟩ :: caller :: callers) :=
      h.lower (List.mem_cons_of_mem _ hcaller) (.inr ⟨b, hb, hidx, hcalled.trans hr⟩)
    refine hs.leave ?_ ?_
    · rw [lowlink_lower, if_neg hne]
      exact hroot
    · rw [lowlink_lower, lowlink_lower, if_pos rfl, if_neg hne]
      exact Nat.min_le_right _ _

theorem finish (h : Sound deps w (⟨name, []⟩ :: callers)) :
    Sound deps ((w.settle deps name).handOn name callers) callers := by
  by_cases hroot : w.lowlink name = w.index name
  · exact h.finish_root hroot
  · have hkeep : w.settle deps name = w := by
      unfold Walk.settle
      rw [if_neg hroot]
    rw [hkeep]
    exact h.finish_inner hroot

/-! ## Runs -/

theorem run (h : Sound deps w visits) : Sound deps (Walk.run deps w visits) [] ∧
    ∀ a ∈ w.met, a ∈ (Walk.run deps w visits).met := by
  induction w, visits using Walk.run.induct deps with
  | case1 w =>
    rw [Walk.run]
    exact ⟨h, fun a ha => ha⟩
  | case2 w name callers ih =>
    rw [Walk.run]
    obtain ⟨hs, hmet⟩ := ih h.finish
    refine ⟨hs, fun a ha => hmet a ?_⟩
    rw [handOn_met, settle_met]
    exact ha
  | case3 w name next ahead callers hnew ih =>
    rw [Walk.run, if_pos hnew]
    simp only [Bool.and_eq_true, Bool.not_eq_true', ← Bool.not_eq_true,
      List.contains_iff_mem] at hnew
    have hleads : deps.Leads name next :=
      ⟨h.ahead _ List.mem_cons_self next List.mem_cons_self, hnew.1⟩
    have hreach : ∀ c ∈ names (⟨name, next :: ahead⟩ :: callers), deps.Reaches c next := by
      intro c hc
      rcases List.mem_cons.1 hc with rfl | hc
      · exact .single hleads
      · exact ((List.pairwise_cons.1 h.chain).1 c hc).tail hleads
    have hentered := h.enter hnew.2 hnew.1 hreach (⟨name, ahead⟩ :: callers) rfl h.ahead_drop
      (fun a b hl => (looked_drop next hl).imp_left And.right)
    obtain ⟨hs, hmet⟩ := ih hentered
    exact ⟨hs, fun a ha => hmet a (List.mem_append_left _ ha)⟩
  | case4 w name next ahead callers hold ih =>
    rw [Walk.run, if_neg hold]
    obtain ⟨hs, hmet⟩ := ih (h.look fun hkey => by
      by_contra hnot
      exact hold (by simp [hkey, hnot]))
    refine ⟨hs, fun a ha => hmet a ?_⟩
    rw [look_met]
    exact ha

theorem visit (h : Sound deps w []) (hkey : deps.has name = true) :
    Sound deps (Walk.visit deps w name) [] ∧ name ∈ (Walk.visit deps w name).met ∧
      ∀ a ∈ w.met, a ∈ (Walk.visit deps w name).met := by
  unfold Walk.visit
  by_cases hmet : name ∈ w.met
  · rw [if_pos (List.contains_iff_mem.2 hmet)]
    exact ⟨h, hmet, fun a ha => ha⟩
  · rw [if_neg (by simpa using hmet)]
    have hentered : Sound deps (w.enter name) [⟨name, deps.of name⟩] :=
      h.enter hmet hkey (by simp [names]) [] rfl (by simp) (fun a b hl => .inr hl)
    obtain ⟨hs, hgrown⟩ := hentered.run
    refine ⟨hs, hgrown name ?_, fun a ha => hgrown a (List.mem_append_left _ ha)⟩
    exact List.mem_append_right _ (List.mem_singleton_self _)

theorem stack_eq_nil (h : Sound deps w []) : w.stack = [] := by
  rw [List.eq_nil_iff_forall_not_mem]
  intro a ha
  obtain ⟨c, hc, -⟩ := h.bottom a ha
  simp [names] at hc

end Sound

end ShapeSchema.Walk
