import ShapeSchema.Text.Units
import ShapeSchema.Native.Basic

/-!
# Names that lie on cycles

A table maps names to the names that they depend on. A name is recursive if a chain of dependencies
leads from it back to itself through names of the table.

## Algorithm

The names are visited depth first. A name gets an index when it is met, and it stays on a stack until
its component, the names that it reaches and that reach it, is complete. The lowlink of a name is the
lowest index on the stack that was found from it; a visit that ends with the name's own index has
found the root of a component, which is then taken off the stack. The visits that are under way are
held as a list, the latest first. The search ends because every step either meets a name of the table
that was not met before or leaves less to look at.
-/

namespace ShapeSchema

/-- Names and the names they depend on. -/
abbrev Dependencies := List (String × List String)

namespace Dependencies

/-- What a name depends on. -/
def of (deps : Dependencies) (name : String) : List String := (Entries.find? deps name).getD []

/-- Whether a name is in the table. -/
def has (deps : Dependencies) (name : String) : Bool := (Entries.find? deps name).isSome

end Dependencies

/-- A visit under way: a name, and what it depends on that was not looked at yet. -/
structure Visit where
  name : String
  ahead : List String

/-- What a search knows. -/
structure Walk where
  /-- The names met, in order: the index of a name is its place. -/
  met : List String := []
  lowlinks : List (String × Nat) := []
  /-- The names whose components are not complete, the latest first. -/
  stack : List String := []
  recursive : List String := []

namespace Walk

def index (w : Walk) (name : String) : Nat := w.met.idxOf name

def lowlink (w : Walk) (name : String) : Nat := (Entries.find? w.lowlinks name).getD 0

/-- Gives a name the next index. -/
def enter (w : Walk) (name : String) : Walk :=
  { w with
    met := w.met ++ [name]
    lowlinks := Entries.insert w.lowlinks name w.met.length
    stack := name :: w.stack }

/-- Lowers the lowlink of a name to a bound. -/
def lower (w : Walk) (name : String) (bound : Nat) : Walk :=
  { w with lowlinks := Entries.insert w.lowlinks name (min (w.lowlink name) bound) }

/-- The names of a stack down to a name, and what is below it. -/
def popTo (name : String) : List String → List String × List String
  | [] => ([], [])
  | member :: rest =>
    if member = name then ([member], rest)
    else (member :: (popTo name rest).1, (popTo name rest).2)

/-- Takes a component off the stack if a name is its root. Its members are recursive if there are
several or if the root depends on itself. -/
def settle (w : Walk) (deps : Dependencies) (name : String) : Walk :=
  if w.lowlink name = w.index name then
    let (component, rest) := popTo name w.stack
    let onCycle := decide (1 < component.length) || (deps.of name).contains name
    { w with
      stack := rest
      recursive := if onCycle then w.recursive ++ component else w.recursive }
  else w

/-- Lowers the lowlink of the name that a visited name was reached from. -/
def handOn (w : Walk) (name : String) (callers : List Visit) : Walk :=
  match callers with
  | [] => w
  | caller :: _ => w.lower caller.name (w.lowlink name)

/-- Looks at a dependency that needs no visit. -/
def look (w : Walk) (deps : Dependencies) (name next : String) : Walk :=
  if deps.has next && w.stack.contains next then w.lower name (w.index next) else w

/-- The names of the table that were not met. -/
def unmet (w : Walk) (deps : Dependencies) : List String :=
  (deps.map (·.1)).filter fun name => !w.met.contains name

/-- What is left to look at in some visits. -/
def left : List Visit → Nat
  | [] => 0
  | v :: visits => v.ahead.length + 1 + left visits

@[simp] theorem lower_met (w : Walk) (name : String) (bound : Nat) :
    (w.lower name bound).met = w.met := rfl

@[simp] theorem settle_met (w : Walk) (deps : Dependencies) (name : String) :
    (w.settle deps name).met = w.met := by
  unfold settle
  split <;> rfl

@[simp] theorem handOn_met (w : Walk) (name : String) (callers : List Visit) :
    (w.handOn name callers).met = w.met := by
  unfold handOn
  split <;> rfl

@[simp] theorem look_met (w : Walk) (deps : Dependencies) (name next : String) :
    (w.look deps name next).met = w.met := by
  unfold look
  split <;> rfl

theorem unmet_of_met {v w : Walk} (deps : Dependencies) (h : v.met = w.met) :
    v.unmet deps = w.unmet deps := by
  unfold unmet
  rw [h]

theorem length_unmet_enter {w : Walk} {deps : Dependencies} {name : String}
    (hkey : deps.has name = true) (hnew : w.met.contains name = false) :
    ((w.enter name).unmet deps).length < (w.unmet deps).length := by
  have hmem : name ∈ w.unmet deps := by
    obtain ⟨ahead, hfind⟩ := Option.isSome_iff_exists.1 hkey
    obtain ⟨p, hp, -⟩ := Option.map_eq_some_iff.1 hfind
    have hname : p.1 = name := by simpa using List.find?_some hp
    have hin : p ∈ deps := List.mem_of_find?_eq_some hp
    refine List.mem_filter.2 ⟨List.mem_map.2 ⟨p, hin, hname⟩, ?_⟩
    rw [hnew]
    rfl
  have hsplit : (w.enter name).unmet deps = (w.unmet deps).filter (· != name) := by
    unfold unmet enter
    rw [List.filter_filter]
    refine List.filter_congr fun other _ => ?_
    by_cases h : other = name <;> simp [h]
  rw [hsplit]
  exact List.length_filter_lt_length_iff_exists.2 ⟨name, hmem, by simp⟩

/-- Follows the visits to their ends. -/
def run (deps : Dependencies) (w : Walk) (visits : List Visit) : Walk :=
  match visits with
  | [] => w
  | ⟨name, []⟩ :: callers => run deps ((w.settle deps name).handOn name callers) callers
  | ⟨name, next :: ahead⟩ :: callers =>
    if deps.has next && !w.met.contains next then
      run deps (w.enter next) (⟨next, deps.of next⟩ :: ⟨name, ahead⟩ :: callers)
    else run deps (w.look deps name next) (⟨name, ahead⟩ :: callers)
termination_by ((w.unmet deps).length, left visits)
decreasing_by
  · rw [unmet_of_met (w := w) deps (by simp)]
    right
    simp [left]
  · rename_i h
    rw [Bool.and_eq_true, Bool.not_eq_true'] at h
    left
    exact length_unmet_enter h.1 h.2
  · rw [unmet_of_met deps (look_met w deps name next)]
    right
    simp [left]

/-- Visits a name unless it was met before. -/
def visit (deps : Dependencies) (w : Walk) (name : String) : Walk :=
  if w.met.contains name then w else run deps (w.enter name) [⟨name, deps.of name⟩]

end Walk

/-- The names of the table that lie on a cycle, in order of their code units. -/
def Dependencies.recursive (deps : Dependencies) : List String :=
  ((deps.map (·.1)).foldl (Walk.visit deps) {}).recursive.mergeSort Text.le

end ShapeSchema
