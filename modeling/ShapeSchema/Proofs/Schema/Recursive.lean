import ShapeSchema.Proofs.Schema.Cycles
import ShapeSchema.Proofs.Schema.Registered
import ShapeSchema.Proofs.Ty.Mentions

/-!
# Recursive classes of a registry

In a registry a class leads to what its fields refer to, and an alias to what its expansion refers
to (`Registry.Leads`). The dependencies that a schema looks for cycles in know of classes only
(`Registry.leads_dependencies`): a reference to an alias counts as one to a class of that name, and
if there is none it ends the chain. So, unless an alias is called like a class, the recursive
classes are those that lead back to themselves from class to class. A class that comes back to
itself through aliases alone is missed, and these are the only ones
(`Registry.recursive_iff_leads`).
-/

namespace ShapeSchema

open Relation

theorem Ty.mem_classNames {μ : Type} {t : Ty μ} {name : String} :
    name ∈ t.classNames ↔ t.Mentions (.classOf name) ∨ t.Mentions (.aliasOf name) := by
  have hnode (u : Ty μ) : u.className? = some name ↔
      u.reference? = some (.classOf name) ∨ u.reference? = some (.aliasOf name) := by
    cases u <;> simp [className?, reference?]
  unfold classNames Mentions
  rw [List.mem_eraseDups, List.mem_filterMap]
  simp only [hnode, and_or_left, exists_or]

namespace Registry

variable {r : Registry}

/-- What a class or an alias of a registry refers to. -/
inductive Leads (r : Registry) : Reference → Reference → Prop
  | field {c : ClassDef} {f : FieldDef} {x : Reference} (hc : c ∈ r.classes) (hf : f ∈ c.fields)
      (hx : f.type.Mentions x) : Leads r (.classOf c.name.real) x
  | expansion {name : String} {t : Ty Authored} {x : Reference}
      (ht : Entries.find? r.aliases name = some t) (hx : t.Mentions x) : Leads r (.aliasOf name) x

/-- A class refers to another one. -/
def LeadsDirectly (r : Registry) (a b : String) : Prop := r.Leads (.classOf a) (.classOf b)

/-- A class of a registry has a name. -/
def Names (r : Registry) (name : String) : Prop := ∃ c ∈ r.classes, c.name.real = name

theorem leads_classOf_iff {name : String} {x : Reference} : r.Leads (.classOf name) x ↔
    ∃ c ∈ r.classes, c.name.real = name ∧ ∃ f ∈ c.fields, f.type.Mentions x := by
  constructor
  · rintro ⟨hc, hf, hx⟩
    exact ⟨_, hc, rfl, _, hf, hx⟩
  · rintro ⟨c, hc, rfl, f, hf, hx⟩
    exact .field hc hf hx

theorem names_of_leads {name : String} {x : Reference} (h : r.Leads (.classOf name) x) :
    r.Names name := by
  obtain ⟨c, hc, hname, -⟩ := leads_classOf_iff.1 h
  exact ⟨c, hc, hname⟩

/-! ## Dependencies -/

theorem mem_fieldReferences {c : ClassDef} {name : String} : name ∈ fieldReferences c ↔
    ∃ f ∈ c.fields, f.type.Mentions (.classOf name) ∨ f.type.Mentions (.aliasOf name) := by
  unfold fieldReferences
  rw [List.mem_eraseDups, List.mem_flatMap]
  simp only [Ty.mem_classNames]

theorem keys_dependencies (r : Registry) :
    Entries.keys r.dependencies = (r.classes.map fun c => c.name.real).eraseDups := by
  unfold dependencies Entries.keys
  rw [List.map_map]
  exact List.map_id' _

theorem has_dependencies {name : String} : r.dependencies.has name = true ↔ r.Names name := by
  rw [Dependencies.has_iff, keys_dependencies, List.mem_eraseDups, List.mem_map]
  rfl

theorem mem_of_dependencies {a b : String} : b ∈ r.dependencies.of a ↔
    ∃ c ∈ r.classes, c.name.real = a ∧ b ∈ fieldReferences c := by
  have hfind : Entries.find? r.dependencies a =
      ((r.classes.map fun c => c.name.real).eraseDups.find? fun n => n == a).map fun n =>
        ((r.classes.filter fun c => c.name.real == n).flatMap fieldReferences).eraseDups := by
    unfold dependencies Entries.find?
    rw [List.find?_map, Option.map_map]
    rfl
  unfold Dependencies.of
  rw [hfind]
  cases h : (r.classes.map fun c => c.name.real).eraseDups.find? fun n => n == a with
  | none =>
    have hnone : ∀ c ∈ r.classes, c.name.real ≠ a := by
      rw [List.find?_eq_none] at h
      exact fun c hc hname => h a (List.mem_eraseDups.2 (List.mem_map.2 ⟨c, hc, hname⟩)) (by simp)
    simp only [Option.map_none, Option.getD_none, List.not_mem_nil, false_iff]
    rintro ⟨c, hc, hname, -⟩
    exact hnone c hc hname
  | some n =>
    obtain rfl : n = a := by simpa using List.find?_some h
    simp [List.mem_eraseDups, List.mem_flatMap, and_assoc]

/-- The dependencies of a registry lead to classes that are registered, by a reference to the class
or to an alias of the same name. -/
theorem leads_dependencies {a b : String} : r.dependencies.Leads a b ↔
    (r.Leads (.classOf a) (.classOf b) ∨ r.Leads (.classOf a) (.aliasOf b)) ∧ r.Names b := by
  unfold Dependencies.Leads
  rw [mem_of_dependencies, has_dependencies, leads_classOf_iff, leads_classOf_iff]
  simp only [mem_fieldReferences]
  refine and_congr_left fun _ => ?_
  constructor
  · rintro ⟨c, hc, hname, f, hf, h | h⟩
    · exact .inl ⟨c, hc, hname, f, hf, h⟩
    · exact .inr ⟨c, hc, hname, f, hf, h⟩
  · rintro (⟨c, hc, hname, f, hf, h⟩ | ⟨c, hc, hname, f, hf, h⟩)
    · exact ⟨c, hc, hname, f, hf, .inl h⟩
    · exact ⟨c, hc, hname, f, hf, .inr h⟩

/-! ## Cycles of classes -/

/-- No field of a class refers to an alias that is called like a class. -/
def AliasesApart (r : Registry) : Prop :=
  ∀ a name, r.Leads (.classOf a) (.aliasOf name) → ¬ r.Names name

theorem leads_dependencies_of_apart (h : r.AliasesApart) {a b : String} :
    r.dependencies.Leads a b ↔ r.LeadsDirectly a b ∧ r.Names b := by
  rw [leads_dependencies]
  refine and_congr_left fun hb => or_iff_left fun halias => ?_
  exact h a b halias hb

/-- On a cycle every class is registered. -/
theorem transGen_dependencies_iff (h : r.AliasesApart) (name : String) :
    TransGen r.dependencies.Leads name name ↔ TransGen r.LeadsDirectly name name := by
  constructor
  · have hsub : r.dependencies.Leads ≤ r.LeadsDirectly :=
      fun a b hab => ((leads_dependencies_of_apart h).1 hab).1
    exact TransGen.mono hsub name name
  · intro hcycle
    have hnames : ∀ {a b}, r.LeadsDirectly a b → r.Names a := fun hab => names_of_leads hab
    obtain ⟨next, hnext, -⟩ := TransGen.head'_iff.1 hcycle
    have hname := hnames hnext
    suffices hrun : ∀ a, TransGen r.LeadsDirectly a name → TransGen r.dependencies.Leads a name from
      hrun name hcycle
    intro a ha
    induction ha using TransGen.head_induction_on with
    | single hab => exact .single ((leads_dependencies_of_apart h).2 ⟨hab, hname⟩)
    | head hab hrest ih =>
      obtain ⟨c, hc, -⟩ := TransGen.head'_iff.1 hrest
      exact .head ((leads_dependencies_of_apart h).2 ⟨hab, hnames hc⟩) ih

theorem mem_recursiveClasses_iff (h : r.AliasesApart) (target : Ty Authored) (name : String) :
    name ∈ (r.freeze target).recursiveClasses ↔ TransGen r.LeadsDirectly name name :=
  (Dependencies.mem_recursive r.dependencies name).trans (transGen_dependencies_iff h name)

/-! ## Cycles through aliases -/

/-- A class leads to an alias that leads back to it. -/
def CyclesThrough (r : Registry) (name n : String) : Prop :=
  TransGen r.Leads (.classOf name) (.aliasOf n) ∧ TransGen r.Leads (.aliasOf n) (.classOf name)

theorem transGen_of_leadsDirectly {a b : String} (h : TransGen r.LeadsDirectly a b) :
    TransGen r.Leads (.classOf a) (.classOf b) := h.lift Reference.classOf fun _ _ hab => hab

/-- Enums lead nowhere. -/
theorem not_leads_enumOf {name : String} {x : Reference} : ¬ r.Leads (.enumOf name) x := by
  rintro ⟨⟩

/-- A cycle that passes no alias goes from class to class. -/
theorem leadsDirectly_of_cycle {name : String} (hno : ∀ n, ¬ r.CyclesThrough name n)
    {x : Reference} (hto : TransGen r.Leads (.classOf name) x)
    (hback : ReflTransGen r.Leads x (.classOf name)) :
    ∃ b, x = .classOf b ∧ TransGen r.LeadsDirectly name b := by
  have hclass : ∀ {x}, TransGen r.Leads (.classOf name) x → ReflTransGen r.Leads x (.classOf name) →
      ∃ b, x = .classOf b := by
    intro x hto hback
    cases x with
    | classOf b => exact ⟨b, rfl⟩
    | enumOf e =>
      rcases ReflTransGen.cases_head hback with heq | ⟨y, hy, -⟩
      · cases heq
      · exact absurd hy not_leads_enumOf
    | aliasOf n =>
      rcases reflTransGen_iff_eq_or_transGen.1 hback with heq | hback
      · cases heq
      · exact absurd ⟨hto, hback⟩ (hno n)
  induction hto with
  | single hab =>
    obtain ⟨b, rfl⟩ := hclass (.single hab) hback
    exact ⟨b, rfl, .single hab⟩
  | tail hab hbc ih =>
    obtain ⟨b, rfl, hb⟩ := ih (.head hbc hback)
    obtain ⟨c, rfl⟩ := hclass (.tail hab hbc) hback
    exact ⟨c, rfl, .tail hb hbc⟩

/-- The recursive classes are those on a cycle of classes. They are the classes on a cycle of
classes and aliases, but for those of which every cycle passes an alias. -/
theorem recursive_iff_leads (h : r.AliasesApart) (target : Ty Authored) (name : String) :
    (name ∈ (r.freeze target).recursiveClasses ↔ TransGen r.LeadsDirectly name name) ∧
    ((name ∈ (r.freeze target).recursiveClasses ↔
        TransGen r.Leads (.classOf name) (.classOf name)) ↔
      ∀ n, r.CyclesThrough name n → TransGen r.LeadsDirectly name name) := by
  have hdirect := mem_recursiveClasses_iff h target name
  refine ⟨hdirect, ?_⟩
  rw [hdirect]
  constructor
  · intro hcycles n hthrough
    exact hcycles.2 (hthrough.1.trans hthrough.2)
  · refine fun hshort => ⟨transGen_of_leadsDirectly, fun hcycle => ?_⟩
    by_cases hno : ∀ n, ¬ r.CyclesThrough name n
    · obtain ⟨b, hb, hcycle⟩ := leadsDirectly_of_cycle hno hcycle .refl
      rwa [← Reference.classOf.inj hb] at hcycle
    · push Not at hno
      obtain ⟨n, hthrough⟩ := hno
      exact hshort n hthrough

/-- A folder with its files, in a folder of its own. -/
def folderClass : ClassDef where
  name := ⟨"Folder", none⟩
  fields := [
    ⟨⟨"parent", none⟩, .union [.classRef "Folder" .complete false {}] (some {}) {}, none, false⟩,
    ⟨⟨"files", none⟩, .aliasRef "Files" .complete {}, none, false⟩]

/-- A file with the folder that it lies in. -/
def fileClass : ClassDef where
  name := ⟨"File", none⟩
  fields := [⟨⟨"home", none⟩, .aliasRef "Home" .complete {}, none, false⟩]

/-- Files and folders refer to each other by aliases. -/
def tree : Registry := ofRegistrations [
  .ofClass folderClass, .ofClass fileClass,
  .ofAlias "Files" (.list (.classRef "File" .complete false {}) {}),
  .ofAlias "Home" (.classRef "Folder" .complete false {})]

/-- A class whose text is given by an alias of the same name. -/
def tagClass : ClassDef where
  name := ⟨"Tag", none⟩
  fields := [⟨⟨"text", none⟩, .aliasRef "Tag" .complete {}, none, false⟩]

def tagged : Registry := ofRegistrations [.ofClass tagClass, .ofAlias "Tag" (.prim .string {})]

theorem leads_tree : tree.Leads (.classOf "Folder") (.classOf "Folder") ∧
    tree.Leads (.classOf "Folder") (.aliasOf "Files") ∧
    tree.Leads (.aliasOf "Files") (.classOf "File") ∧
    tree.Leads (.classOf "File") (.aliasOf "Home") ∧
    tree.Leads (.aliasOf "Home") (.classOf "Folder") := by
  have hclasses : tree.classes = [folderClass, fileClass] := rfl
  refine ⟨?_, ?_, .expansion rfl (by simp), ?_, .expansion rfl (by simp)⟩ <;>
    rw [leads_classOf_iff, hclasses] <;> simp [folderClass, fileClass]

theorem aliasesApart_tree : tree.AliasesApart := by
  have hclasses : tree.classes = [folderClass, fileClass] := rfl
  intro a n h
  unfold Names
  rw [leads_classOf_iff, hclasses] at h
  rw [hclasses]
  simp [folderClass, fileClass] at h ⊢
  rcases h with ⟨-, rfl⟩ | ⟨-, rfl⟩ <;> decide

/-- A folder refers to its parent, which is enough to find it recursive; that its files lead back to
it as well does no harm. -/
theorem recursive_iff_leads_tree : tree.AliasesApart ∧ tree.CyclesThrough "Folder" "Files" ∧
    "Folder" ∈ (tree.freeze (.classRef "Folder" .complete false {})).recursiveClasses ∧
    TransGen tree.Leads (.classOf "Folder") (.classOf "Folder") := by
  obtain ⟨hparent, hfiles, hfile, hhome, hfolder⟩ := leads_tree
  obtain ⟨hrecursive, hclaim⟩ := recursive_iff_leads aliasesApart_tree
    (.classRef "Folder" .complete false {}) "Folder"
  have hdirect : TransGen tree.LeadsDirectly "Folder" "Folder" := .single hparent
  have hmem := hrecursive.2 hdirect
  exact ⟨aliasesApart_tree, ⟨.single hfiles, ((TransGen.single hfile).tail hhome).tail hfolder⟩,
    hmem, (hclaim.2 fun _ _ => hdirect).1 hmem⟩

/-- A file comes back to itself through aliases and is not found; a tag is taken for the alias that
has its name. -/
theorem recursive_differs :
    (TransGen tree.Leads (.classOf "File") (.classOf "File") ∧
      "File" ∉ (tree.freeze (.classRef "File" .complete false {})).recursiveClasses) ∧
    ¬ TransGen tagged.Leads (.classOf "Tag") (.classOf "Tag") ∧
      "Tag" ∈ (tagged.freeze (.classRef "Tag" .complete false {})).recursiveClasses := by
  obtain ⟨-, hfiles, hfile, hhome, hfolder⟩ := leads_tree
  refine ⟨⟨?_, ?_⟩, ?_, ?_⟩
  · exact (((TransGen.single hhome).tail hfolder).tail hfiles).tail hfile
  · intro hmem
    have hedges : tree.dependencies.edges = [("Folder", "Folder")] := by decide
    obtain ⟨last, -, hlast⟩ := TransGen.tail'_iff.1 ((Dependencies.mem_recursive _ _).1 hmem)
    rw [Dependencies.leads_iff, hedges] at hlast
    simp at hlast
  · intro hcycle
    obtain ⟨x, hx, hback⟩ := TransGen.head'_iff.1 hcycle
    have hclasses : tagged.classes = [tagClass] := rfl
    rw [leads_classOf_iff, hclasses] at hx
    obtain rfl : x = .aliasOf "Tag" := by simpa [tagClass] using hx
    rcases ReflTransGen.cases_head hback with heq | ⟨y, hy, -⟩
    · cases heq
    · cases hy with
      | expansion ht hmentions =>
        obtain rfl := Option.some.inj ht
        exact absurd hmentions (Ty.mentions_prim .string ({} : Authored))
  · have hedges : tagged.dependencies.edges = [("Tag", "Tag")] := by decide
    refine (Dependencies.mem_recursive _ _).2 (.single (Dependencies.leads_iff.2 ?_))
    rw [hedges]
    exact List.mem_cons_self

end Registry

end ShapeSchema
