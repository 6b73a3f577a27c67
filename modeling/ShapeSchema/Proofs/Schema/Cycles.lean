import Mathlib.Data.List.Perm.Basic
import ShapeSchema.Proofs.Schema.Component
import ShapeSchema.Proofs.Text.Order

/-!
# Recursive names

A search visits every name of a table, so that in the end every component is complete
(`Walk.sound_foldl`). The recursive names of a table are therefore those that lie on a cycle, each
once and in order of their code units, and they depend on nothing but which names lead to which
(`Dependencies.recursive_spec`).
-/

namespace ShapeSchema

open Relation

namespace Walk

variable {deps : Dependencies}

theorem sound_foldl (names : List String) (hkeys : ∀ n ∈ names, deps.has n = true) {w : Walk}
    (h : Sound deps w []) : Sound deps (names.foldl (visit deps) w) [] ∧
      (∀ a ∈ w.met, a ∈ (names.foldl (visit deps) w).met) ∧
      ∀ n ∈ names, n ∈ (names.foldl (visit deps) w).met := by
  induction names generalizing w with
  | nil => exact ⟨h, fun a ha => ha, by simp⟩
  | cons name names ih =>
    obtain ⟨hs, hself, hmet⟩ := h.visit (hkeys name List.mem_cons_self)
    obtain ⟨hs', hmet', hall⟩ := ih (fun n hn => hkeys n (List.mem_cons_of_mem _ hn)) hs
    refine ⟨hs', fun a ha => hmet' a (hmet a ha), fun n hn => ?_⟩
    rcases List.mem_cons.1 hn with rfl | hn
    · exact hmet' n hself
    · exact hall n hn

end Walk

namespace Dependencies

/-- A name on a cycle is a name of the table, and so is every other name there. -/
theorem has_of_cycle {deps : Dependencies} {name : String} (h : TransGen deps.Leads name name) :
    deps.has name = true := by
  obtain ⟨_, -, hlast⟩ := TransGen.tail'_iff.1 h
  exact hlast.2

theorem mem_recursive (deps : Dependencies) (name : String) :
    name ∈ deps.recursive ↔ TransGen deps.Leads name name := by
  have hkeys : ∀ n ∈ deps.map (·.1), deps.has n = true := fun n hn => has_iff.2 hn
  obtain ⟨hs, -, hall⟩ := Walk.sound_foldl _ hkeys (Walk.sound_start deps)
  unfold recursive
  rw [List.mem_mergeSort, hs.found]
  constructor
  · exact And.right
  · intro hcycle
    have hmet := hall name (has_iff.1 (has_of_cycle hcycle))
    refine ⟨⟨hmet, ?_⟩, hcycle⟩
    rw [hs.stack_eq_nil]
    exact List.not_mem_nil

theorem nodup_recursive (deps : Dependencies) : deps.recursive.Nodup := by
  have hkeys : ∀ n ∈ deps.map (·.1), deps.has n = true := fun n hn => has_iff.2 hn
  obtain ⟨hs, -, -⟩ := Walk.sound_foldl _ hkeys (Walk.sound_start deps)
  exact (List.mergeSort_perm _ _).nodup_iff.2 hs.once

theorem recursive_ascending (deps : Dependencies) :
    deps.recursive.Pairwise fun a b => Text.lt a b = true := by
  have htrans : ∀ a b c, Text.le a b = true → Text.le b c = true → Text.le a c = true :=
    fun a b c hab hbc => Text.le_trans hab hbc
  have hle : deps.recursive.Pairwise fun a b => Text.le a b = true := by
    unfold recursive
    exact List.pairwise_mergeSort htrans Text.le_total _
  exact hle.imp₂ (fun a b hab hne => Text.lt_of_le_of_ne hab hne) deps.nodup_recursive

/-- The recursive names are the names of the table on a cycle of dependencies, in strictly ascending
order of their code units. They are the same for two tables in which the same names lead to the same
names: the order of the entries, the order of what a name depends on, and what is not in the table
do not matter. -/
theorem recursive_spec (deps : Dependencies) :
    (∀ name, name ∈ deps.recursive ↔ TransGen deps.Leads name name) ∧
    deps.recursive.Pairwise (fun a b => Text.lt a b = true) ∧
    ∀ other : Dependencies, (∀ a b, other.Leads a b ↔ deps.Leads a b) →
      other.recursive = deps.recursive := by
  refine ⟨deps.mem_recursive, deps.recursive_ascending, fun other hsame => ?_⟩
  have hleads : other.Leads = deps.Leads := by
    funext a b
    exact propext (hsame a b)
  have hmem : ∀ name, name ∈ other.recursive ↔ name ∈ deps.recursive := by
    intro name
    rw [mem_recursive, mem_recursive, hleads]
  have hperm : other.recursive.Perm deps.recursive :=
    (List.perm_ext_iff_of_nodup other.nodup_recursive deps.nodup_recursive).2 hmem
  refine hperm.eq_of_pairwise (fun a b _ _ hab hba => ?_) other.recursive_ascending
    deps.recursive_ascending
  have := Text.lt_trans hab hba
  rw [Text.lt_irrefl] at this
  cases this

/-- The pairs of names of which one leads to the other. -/
def edges (deps : Dependencies) : List (String × String) :=
  (Entries.keys deps).flatMap fun a => ((deps.of a).filter deps.has).map fun b => (a, b)

theorem leads_iff {deps : Dependencies} {a b : String} : deps.Leads a b ↔ (a, b) ∈ deps.edges := by
  unfold edges Leads
  simp only [List.mem_flatMap, List.mem_map, List.mem_filter, Prod.mk.injEq]
  constructor
  · rintro ⟨hb, hkey⟩
    have ha : a ∈ Entries.keys deps := by
      by_contra hnot
      unfold of at hb
      rw [Entries.find?_eq_none.2 hnot] at hb
      simp at hb
    exact ⟨a, ha, b, ⟨hb, hkey⟩, rfl, rfl⟩
  · rintro ⟨c, -, d, hd, rfl, rfl⟩
    exact hd

/-- A ring of two names, with a third one that leads to it and a name that is not in the table. -/
def ring : Dependencies := [("b", ["a", "gone"]), ("c", ["a"]), ("a", ["b"])]

/-- The same ring in another order and with another dangling name. -/
def turned : Dependencies := [("a", ["lost", "b"]), ("b", ["a"]), ("c", ["a"])]

theorem recursive_ring : "a" ∈ ring.recursive ∧ "b" ∈ ring.recursive ∧ "c" ∉ ring.recursive ∧
    turned.recursive = ring.recursive := by
  have hedges : ring.edges = [("b", "a"), ("c", "a"), ("a", "b")] := by decide
  have hturned : turned.edges = [("a", "b"), ("b", "a"), ("c", "a")] := by decide
  have hab : ring.Leads "a" "b" := leads_iff.2 (by rw [hedges]; decide)
  have hba : ring.Leads "b" "a" := leads_iff.2 (by rw [hedges]; decide)
  obtain ⟨hmem, -, hsame⟩ := recursive_spec ring
  refine ⟨(hmem _).2 (.tail (.single hab) hba), (hmem _).2 (.tail (.single hba) hab), ?_, ?_⟩
  · intro hc
    obtain ⟨last, -, hlast⟩ := TransGen.tail'_iff.1 ((hmem _).1 hc)
    rw [leads_iff, hedges] at hlast
    simp at hlast
  · refine hsame turned fun a b => ?_
    rw [leads_iff, leads_iff, hedges, hturned]
    simp only [List.mem_cons, List.not_mem_nil, or_false]
    constructor
    · rintro (h | h | h) <;> simp [h]
    · rintro (h | h | h) <;> simp [h]

end Dependencies

end ShapeSchema
