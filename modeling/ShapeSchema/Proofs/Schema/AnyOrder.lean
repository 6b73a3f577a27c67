import ShapeSchema.Proofs.Lists
import ShapeSchema.Proofs.Schema.Recursive

/-!
# Registration in any order

The schema that a registry is frozen to does not depend on the order in which its definitions were
registered, as long as no two of them compete for a name (`Registry.freeze_of_perm`): enums and
classes are sorted by what tells them apart, and the recursive classes depend only on which classes
lead to which.
-/

namespace ShapeSchema

namespace Dependencies

/-- The recursive names depend only on which names lead to which. -/
theorem recursive_of_leads {deps other : Dependencies}
    (h : ∀ a b, other.Leads a b ↔ deps.Leads a b) : other.recursive = deps.recursive := by
  have hleads : other.Leads = deps.Leads := by
    funext a b
    exact propext (h a b)
  have hmem : ∀ name, name ∈ other.recursive ↔ name ∈ deps.recursive := by
    intro name
    rw [mem_recursive, mem_recursive, hleads]
  have hperm := (List.perm_ext_iff_of_nodup other.nodup_recursive deps.nodup_recursive).2 hmem
  refine eq_of_perm_of_key id (fun a b hab hba => ?_) hperm ?_
    other.recursive_ascending deps.recursive_ascending
  · exact Text.eq_of_le_of_le (Text.le_of_lt hab) (Text.le_of_lt hba)
  · rw [List.map_id]
    exact other.nodup_recursive

end Dependencies

namespace Registry

variable {xs ys : List Registration}

/-- Order of enum definitions: by name. -/
def enumLe (a b : EnumDef) : Bool := Text.le a.name.real b.name.real

theorem enums_freeze (r : Registry) (target : Ty Authored) :
    (r.freeze target).enums = r.enums.mergeSort enumLe := rfl

theorem pairwise_enums (es : List EnumDef) :
    (es.mergeSort enumLe).Pairwise fun a b => enumLe a b = true := by
  refine List.pairwise_mergeSort (fun a b c hab hbc => ?_) (fun a b => ?_) es
  · exact Text.le_trans hab hbc
  · exact Text.le_total a.name.real b.name.real

theorem enums_of_perm {es fs : List EnumDef} (h : es.Perm fs)
    (nd : (es.map EnumDef.key).Nodup) : es.mergeSort enumLe = fs.mergeSort enumLe := by
  have hsorted := List.mergeSort_perm es enumLe
  refine eq_of_perm_of_key EnumDef.key (fun a b hab hba => ?_) ?_ ?_
    (pairwise_enums es) (pairwise_enums fs)
  · exact Text.eq_of_le_of_le hab hba
  · exact hsorted.trans (h.trans (List.mergeSort_perm fs enumLe).symm)
  · exact (hsorted.map _).nodup_iff.2 nd

/-- Classes that come before each other have one name and one mode. -/
theorem key_eq_of_classLe {c d : ClassDef} (hcd : classLe c d = true) (hdc : classLe d c = true) :
    c.key = d.key := by
  rw [classLe_eq] at hcd hdc
  obtain ⟨hname, hmode, hmode'⟩ := Text.nameThen_antisymm hcd hdc
  refine Prod.ext hname ?_
  show c.mode = d.mode
  revert hmode hmode'
  cases c.mode <;> cases d.mode <;> decide

theorem classes_of_perm {cs ds : List ClassDef} (h : cs.Perm ds)
    (nd : (cs.map ClassDef.key).Nodup) : cs.mergeSort classLe = ds.mergeSort classLe := by
  have hsorted := List.mergeSort_perm cs classLe
  refine eq_of_perm_of_key ClassDef.key (fun a b => key_eq_of_classLe) ?_ ?_
    (pairwise_classes cs) (pairwise_classes ds)
  · exact hsorted.trans (h.trans (List.mergeSort_perm ds classLe).symm)
  · exact (hsorted.map _).nodup_iff.2 nd

/-- The recursive classes of two registries of the same classes are the same. -/
theorem recursive_of_perm {r r' : Registry} (h : r.classes.Perm r'.classes) :
    r.dependencies.recursive = r'.dependencies.recursive := by
  have hnames (name : String) : r.Names name ↔ r'.Names name := by
    unfold Names
    simp only [h.mem_iff]
  have hleads (name : String) (x : Reference) :
      r.Leads (.classOf name) x ↔ r'.Leads (.classOf name) x := by
    rw [leads_classOf_iff, leads_classOf_iff]
    simp only [h.mem_iff]
  refine Dependencies.recursive_of_leads fun a b => ?_
  rw [leads_dependencies, leads_dependencies, hleads, hleads, hnames]

/-- Whatever the order of registration, the schema has the same enums and classes in the same order
and the same recursive classes, and answers every look-up alike, also for the definitions for
partial values that it derives. -/
theorem freeze_of_perm (h : xs.Perm ys)
    (henums : ((xs.filterMap Registration.enum?).map EnumDef.key).Nodup)
    (hclasses : ((xs.filterMap Registration.class?).map ClassDef.key).Nodup)
    {target : Ty Authored} {s s' : Schema} (hs : s = (ofRegistrations xs).freeze target)
    (hs' : s' = (ofRegistrations ys).freeze target) :
    s.enums = s'.enums ∧ s.classes = s'.classes ∧ s.recursiveClasses = s'.recursiveClasses ∧
    (∀ name, s.findEnum? name = s'.findEnum? name) ∧
    ∀ name mode, s.findClass? name mode = s'.findClass? name mode := by
  have hperm : (ofRegistrations xs).enums.Perm (ofRegistrations ys).enums ∧
      (ofRegistrations xs).classes.Perm (ofRegistrations ys).classes := by
    have hes := h.filterMap Registration.enum?
    have hcs := h.filterMap Registration.class?
    rw [enums_ofRegistrations henums, classes_ofRegistrations hclasses,
      enums_ofRegistrations ((hes.map _).nodup_iff.1 henums),
      classes_ofRegistrations ((hcs.map _).nodup_iff.1 hclasses)]
    exact ⟨hes, hcs⟩
  have hsame : s.enums = s'.enums ∧ s.classes = s'.classes := by
    rw [hs, hs', enums_freeze, enums_freeze]
    exact ⟨enums_of_perm hperm.1 (nodup_enums xs), classes_of_perm hperm.2 (nodup_classes xs)⟩
  have hrecursive : s.recursiveClasses = s'.recursiveClasses := by
    rw [hs, hs']
    exact recursive_of_perm hperm.2
  have hregistered (name : String) (mode : Mode) :
      s.registered? name mode = s'.registered? name mode := by
    unfold Schema.registered?
    rw [hsame.2]
  refine ⟨hsame.1, hsame.2, hrecursive, fun name => ?_, fun name mode => ?_⟩
  · unfold Schema.findEnum?
    rw [hsame.1]
  · unfold Schema.findClass?
    rw [hregistered, hregistered]

/-- The pages of a site, which may be shown before it is known which kind they are of. -/
def pageClass (mode : Mode) (kind : Ty Authored) : ClassDef where
  name := ⟨"Page", none⟩
  mode := mode
  fields := [⟨⟨"kind", none⟩, kind, none, false⟩,
    ⟨⟨"site", none⟩, .classRef "Site" mode false {}, none, false⟩]

def siteClass : ClassDef where
  name := ⟨"Site", none⟩
  fields := [⟨⟨"pages", none⟩, .list (.classRef "Page" .complete false {}) {}, none, false⟩]

def siteRegistrations : List Registration := [
  .ofClass siteClass, .ofEnum ⟨⟨"Kind", none⟩, none, [⟨⟨"NEWS", none⟩, none⟩], []⟩,
  .ofClass (pageClass .complete (.enumRef "Kind" false {})),
  .ofClass (pageClass .partialValue (.union [.enumRef "Kind" false {}] (some {}) {}))]

def site : Schema :=
  (ofRegistrations siteRegistrations).freeze (.classRef "Site" .complete false {})

/-- The same site, its pages registered first. -/
def siteBackwards : Schema :=
  (ofRegistrations siteRegistrations.reverse).freeze (.classRef "Site" .complete false {})

theorem freeze_of_perm_site : siteRegistrations.Perm siteRegistrations.reverse ∧
    ((siteRegistrations.filterMap Registration.enum?).map EnumDef.key).Nodup ∧
    ((siteRegistrations.filterMap Registration.class?).map ClassDef.key).Nodup ∧
    site.enums = siteBackwards.enums ∧ site.classes = siteBackwards.classes ∧
    site.recursiveClasses = siteBackwards.recursiveClasses ∧
    ∀ name mode, site.findClass? name mode = siteBackwards.findClass? name mode := by
  have hperm := (List.reverse_perm siteRegistrations).symm
  have henums : ((siteRegistrations.filterMap Registration.enum?).map EnumDef.key).Nodup := by
    decide
  have hclasses : ((siteRegistrations.filterMap Registration.class?).map ClassDef.key).Nodup := by
    decide
  obtain ⟨hes, hcs, hrecursive, -, hfind⟩ :=
    freeze_of_perm hperm henums hclasses (show site = _ from rfl) (show siteBackwards = _ from rfl)
  exact ⟨hperm, henums, hclasses, hes, hcs, hrecursive, hfind⟩

end Registry

end ShapeSchema
