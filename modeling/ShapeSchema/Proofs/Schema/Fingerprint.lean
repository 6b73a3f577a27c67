import ShapeSchema.Proofs.Lists
import ShapeSchema.Proofs.Native.Canonical
import ShapeSchema.Proofs.Schema.Registered
import ShapeSchema.Proofs.Ty.Mentions
import ShapeSchema.Proofs.Ty.NullApart
import ShapeSchema.Schema.Fingerprint

/-!
# Fingerprints and real names

A fingerprint does not depend on the real names of classes and enums (`fingerprint_renamed`): if
they are renamed one to one, with all references to them, and registered again in any order, the
canonical text that is hashed stays the same. A reference is shown by the rendered name of the last
definition under its real name, and which one that is survives renaming (`renderedNames_class`).
Views come in an order in which only views of one text can change places, so their order does not
depend on the one they are made in (`canonical_sortViews`).
-/

namespace ShapeSchema

/-! ## Views in order -/

namespace Schema

/-- What views are ordered by. -/
def viewKey (v : String × Native) : String × String := (v.1, v.2.canonical true)

/-- The order of views as an order of their keys. -/
def viewKeyLe : String × String → String × String → Bool :=
  Text.nameThen Prod.fst fun a b => Text.le a.2 b.2

theorem viewLe_eq (a b : String × Native) : viewLe a b = viewKeyLe (viewKey a) (viewKey b) := by
  unfold viewLe viewKeyLe viewKey Text.nameThen
  rfl

theorem viewKeyLe_trans (a b c : String × String) (hab : viewKeyLe a b = true)
    (hbc : viewKeyLe b c = true) : viewKeyLe a c = true := by
  have hcontent : ∀ a b c : String × String, Text.le a.2 b.2 = true → Text.le b.2 c.2 = true →
      Text.le a.2 c.2 = true := fun _ _ _ => Text.le_trans
  exact Text.nameThen_trans hcontent a b c hab hbc

theorem viewKeyLe_total (a b : String × String) : (viewKeyLe a b || viewKeyLe b a) = true := by
  have hcontent : ∀ a b : String × String, (Text.le a.2 b.2 || Text.le b.2 a.2) = true :=
    fun a b => Text.le_total a.2 b.2
  exact Text.nameThen_total hcontent a b

theorem viewKeyLe_antisymm {a b : String × String} (hab : viewKeyLe a b = true)
    (hba : viewKeyLe b a = true) : a = b := by
  obtain ⟨hname, hab, hba⟩ := Text.nameThen_antisymm hab hba
  exact Prod.ext hname (Text.eq_of_le_of_le hab hba)

theorem pairwise_viewKeys (vs : List (String × Native)) :
    ((vs.mergeSort viewLe).map viewKey).Pairwise fun a b => viewKeyLe a b = true := by
  rw [List.pairwise_map]
  simp only [← viewLe_eq]
  refine List.pairwise_mergeSort (fun a b c => ?_) (fun a b => ?_) vs
  · rw [viewLe_eq, viewLe_eq, viewLe_eq]
    exact viewKeyLe_trans _ _ _
  · rw [viewLe_eq, viewLe_eq]
    exact viewKeyLe_total _ _

/-- The text of views in order depends on their names and texts alone, not on the order in which
they are given. -/
theorem canonical_sortViews_of_keys {vs ws : List (String × Native)}
    (h : (vs.map viewKey).Perm (ws.map viewKey)) :
    (sortViews vs).canonical? true = (sortViews ws).canonical? true := by
  have hperm : ((vs.mergeSort viewLe).map viewKey).Perm ((ws.mergeSort viewLe).map viewKey) :=
    ((List.mergeSort_perm vs viewLe).map _).trans
      (h.trans ((List.mergeSort_perm ws viewLe).map _).symm)
  have hkeys := hperm.eq_of_pairwise (fun _ _ _ _ => viewKeyLe_antisymm) (pairwise_viewKeys vs)
    (pairwise_viewKeys ws)
  have htexts := congrArg (List.map Prod.snd) hkeys
  rw [List.map_map, List.map_map] at htexts
  unfold sortViews
  rw [Native.canonical?, Native.canonical?, Native.canonicalItems_eq_map,
    Native.canonicalItems_eq_map, List.map_map, List.map_map]
  exact congrArg (fun texts => some ("[" ++ ",".intercalate texts ++ "]")) htexts

theorem canonical_sortViews {vs ws : List (String × Native)} (h : vs.Perm ws) :
    (sortViews vs).canonical? true = (sortViews ws).canonical? true :=
  canonical_sortViews_of_keys (h.map viewKey)

end Schema

/-! ## Renaming twice -/

namespace Ty

/-- After one renaming another gives a reference the name that a third one gives it at once. -/
def Renaming.Factors (first second whole : Renaming) : Reference → Prop
  | .enumOf n => (second.enums ((first.enums n).getD n)).getD ((first.enums n).getD n)
      = (whole.enums n).getD n
  | .classOf n | .aliasOf n =>
    (second.classes ((first.classes n).getD n)).getD ((first.classes n).getD n)
      = (whole.classes n).getD n

theorem rename_rename {μ : Type} {first second whole : Renaming} {t : Ty μ}
    (h : ∀ r, t.Mentions r → first.Factors second whole r) :
    (t.rename first).rename second = t.rename whole := by
  have all {ts : List (Ty μ)}
      (h : ∀ t ∈ ts, (t.rename first).rename second = t.rename whole) :
      renames second (renames first ts) = renames whole ts := by
    rw [renames_eq_map, renames_eq_map, renames_eq_map, List.map_map]
    exact List.map_congr_left h
  induction t using induct with
  | top a => rfl
  | prim p a => rfl
  | literal l a => rfl
  | enumRef n d a => exact congrArg (enumRef · d a) (h _ ((mentions_enumRef n d a).2 rfl))
  | classRef n m d a => exact congrArg (classRef · m d a) (h _ ((mentions_classRef n m d a).2 rfl))
  | aliasRef n m a => exact congrArg (aliasRef · m a) (h _ ((mentions_aliasRef n m a).2 rfl))
  | list i a ih =>
    rw [rename, rename, rename, ih fun r hr => h r ((mentions_list i a).2 hr)]
  | map k v a ihk ihv =>
    rw [rename, rename, rename, ihk fun r hr => h r ((mentions_map k v a).2 (.inl hr)),
      ihv fun r hr => h r ((mentions_map k v a).2 (.inr hr))]
  | tuple is a ih =>
    rw [rename, rename, rename,
      all fun t ht => ih t ht fun r hr => h r ((mentions_tuple is a).2 ⟨t, ht, hr⟩)]
  | arrow ps t a ih iht =>
    rw [rename, rename, rename, iht fun r hr => h r ((mentions_arrow ps t a).2 (.inr hr)),
      all fun p hp => ih p hp fun r hr => h r ((mentions_arrow ps t a).2 (.inl ⟨p, hp, hr⟩))]
  | union ms null a ih =>
    rw [rename, rename, rename,
      all fun t ht => ih t ht fun r hr => h r ((mentions_union ms null a).2 ⟨t, ht, hr⟩)]

end Ty

/-! ## Renaming definitions -/

/-- A class under a new real name, its rendered name kept and its references renamed. -/
structure ClassDef.Renames (κ : String → String) (ρ : Ty.Renaming) (c d : ClassDef) : Prop where
  real : d.name.real = κ c.name.real
  rendered : d.name.rendered = c.name.rendered
  rest : d = { c with
    name := d.name
    fields := c.fields.map fun f => { f with type := f.type.rename ρ } }

/-- An enum under a new real name, its rendered name kept. -/
structure EnumDef.Renames (ε : String → String) (e f : EnumDef) : Prop where
  real : f.name.real = ε e.name.real
  rendered : f.name.rendered = e.name.rendered
  rest : f = { e with name := f.name }

theorem ClassDef.Renames.mode {κ : String → String} {ρ : Ty.Renaming} {c d : ClassDef}
    (h : c.Renames κ ρ d) : d.mode = c.mode := by rw [h.rest]

namespace Schema

/-- New names for the classes and enums of a schema. -/
def newNames (s : Schema) (κ ε : String → String) : Ty.Renaming where
  classes n := if s.classes.any fun c => c.name.real == n then some (κ n) else none
  enums n := if s.enums.any fun e => e.name.real == n then some (ε n) else none

/-- The types that a fingerprint shows: the target and the types of the fields. -/
def shownTypes (s : Schema) : List (Ty Authored) :=
  s.target :: s.classes.flatMap fun c => c.fields.map fun f => f.type

/-- A class or enum that is referred to is registered; an alias is called differently from every
class, before and after renaming. -/
def Accounts (s : Schema) (κ : String → String) : Reference → Prop
  | .enumOf n => ∃ e ∈ s.enums, e.name.real = n
  | .classOf n => ∃ c ∈ s.classes, c.name.real = n
  | .aliasOf n => ∀ c ∈ s.classes, c.name.real ≠ n ∧ κ c.name.real ≠ n

/-- One new name for each class and enum, and references that tell what they refer to. -/
structure Renamable (s : Schema) (κ ε : String → String) : Prop where
  classes : ∀ c ∈ s.classes, ∀ d ∈ s.classes, κ c.name.real = κ d.name.real →
    c.name.real = d.name.real
  enums : ∀ e ∈ s.enums, ∀ f ∈ s.enums, ε e.name.real = ε f.name.real → e.name.real = f.name.real
  references : ∀ t ∈ s.shownTypes, ∀ r, t.Mentions r → s.Accounts κ r

/-- One schema is another under new real names, listed in any order. -/
structure RenamedTo (s : Schema) (κ ε : String → String) (s' : Schema) : Prop where
  target : s'.target = s.target.rename (s.newNames κ ε)
  classes : ∃ ds, List.Forall₂ (ClassDef.Renames κ (s.newNames κ ε)) s.classes ds ∧
    s'.classes.Perm ds
  enums : ∃ fs, List.Forall₂ (EnumDef.Renames ε) s.enums fs ∧ s'.enums.Perm fs

/-- A schema's definitions in the order of schemas, none competing with another for a name. -/
structure Ordered (s : Schema) : Prop where
  classes : (s.classes.map ClassDef.key).Nodup
  enums : (s.enums.map EnumDef.key).Nodup
  sorted : s.classes.Pairwise fun c d => Registry.classLe c d = true

theorem ordered_freeze {r : Registry} (hclasses : (r.classes.map ClassDef.key).Nodup)
    (henums : (r.enums.map EnumDef.key).Nodup) (target : Ty Authored) :
    (r.freeze target).Ordered where
  classes := ((List.mergeSort_perm _ _).map _).nodup_iff.2 hclasses
  enums := ((List.mergeSort_perm _ _).map _).nodup_iff.2 henums
  sorted := Registry.pairwise_classes r.classes

variable {s s' : Schema} {κ ε : String → String}

theorem RenamedTo.exists_class (h : s.RenamedTo κ ε s') {c : ClassDef} (hc : c ∈ s.classes) :
    ∃ d ∈ s'.classes, c.Renames κ (s.newNames κ ε) d := by
  obtain ⟨ds, hds, hperm⟩ := h.classes
  obtain ⟨d, hd, hr⟩ := exists_of_forall₂ hds.flip hc
  exact ⟨d, hperm.mem_iff.2 hd, hr⟩

theorem RenamedTo.exists_old_class (h : s.RenamedTo κ ε s') {d : ClassDef} (hd : d ∈ s'.classes) :
    ∃ c ∈ s.classes, c.Renames κ (s.newNames κ ε) d := by
  obtain ⟨ds, hds, hperm⟩ := h.classes
  exact exists_of_forall₂ hds (hperm.mem_iff.1 hd)

theorem RenamedTo.exists_enum (h : s.RenamedTo κ ε s') {e : EnumDef} (he : e ∈ s.enums) :
    ∃ f ∈ s'.enums, e.Renames ε f := by
  obtain ⟨fs, hfs, hperm⟩ := h.enums
  obtain ⟨f, hf, hr⟩ := exists_of_forall₂ hfs.flip he
  exact ⟨f, hperm.mem_iff.2 hf, hr⟩

theorem RenamedTo.exists_old_enum (h : s.RenamedTo κ ε s') {f : EnumDef} (hf : f ∈ s'.enums) :
    ∃ e ∈ s.enums, e.Renames ε f := by
  obtain ⟨fs, hfs, hperm⟩ := h.enums
  exact exists_of_forall₂ hfs (hperm.mem_iff.1 hf)

/-! ## Rendered names -/

/-- The class that gives a name its rendered form: the last one under it. -/
theorem renderedNames_classes_eq_some (hs : s.Ordered) {n : String}
    (h : ∃ c ∈ s.classes, c.name.real = n) : ∃ c ∈ s.classes, c.name.real = n ∧
      s.renderedNames.classes n = some c.name.rendered ∧
      ∀ d ∈ s.classes, d.name.real = n → d.mode = .complete ∨ c.mode = .partialValue := by
  obtain ⟨c₀, hc₀, hname⟩ := h
  have hsome : (s.classes.reverse.find? fun c => c.name.real == n).isSome = true :=
    List.find?_isSome.2 ⟨c₀, List.mem_reverse.2 hc₀, beq_iff_eq.2 hname⟩
  obtain ⟨c, hfind⟩ := Option.isSome_iff_exists.1 hsome
  obtain ⟨hc, hreal, hlast⟩ := last_of_find? hs.sorted hfind
  have hreal : c.name.real = n := beq_iff_eq.1 hreal
  refine ⟨c, hc, hreal, congrArg (Option.map _) hfind, fun d hd hdn => ?_⟩
  rcases hlast d hd (beq_iff_eq.2 hdn) with rfl | hle
  · cases d.mode
    · exact .inl rfl
    · exact .inr rfl
  · rw [Registry.classLe_of_name (hdn.trans hreal.symm), Bool.or_eq_true, beq_iff_eq,
      beq_iff_eq] at hle
    exact hle

theorem renderedNames_classes_eq_none {n : String} (h : ∀ c ∈ s.classes, c.name.real ≠ n) :
    s.renderedNames.classes n = none := by
  refine Option.map_eq_none_iff.2 (List.find?_eq_none.2 fun c hc => ?_)
  rw [beq_iff_eq]
  exact h c (List.mem_reverse.1 hc)

theorem newNames_classes_eq_some {c : ClassDef} (hc : c ∈ s.classes) :
    (s.newNames κ ε).classes c.name.real = some (κ c.name.real) := by
  refine if_pos (List.any_eq_true.2 ⟨c, hc, ?_⟩)
  rw [beq_iff_eq]

theorem newNames_classes_eq_none {n : String} (h : ∀ c ∈ s.classes, c.name.real ≠ n) :
    (s.newNames κ ε).classes n = none := by
  refine if_neg fun hany => ?_
  obtain ⟨c, hc, hreal⟩ := List.any_eq_true.1 hany
  exact h c hc (beq_iff_eq.1 hreal)

theorem newNames_enums_eq_some {e : EnumDef} (he : e ∈ s.enums) :
    (s.newNames κ ε).enums e.name.real = some (ε e.name.real) := by
  refine if_pos (List.any_eq_true.2 ⟨e, he, ?_⟩)
  rw [beq_iff_eq]

/-- A class is rendered under its new name as it was under the old one, also if the class and its
definition for partial values are rendered differently. -/
theorem renderedNames_class (hs : s.Ordered) (hs' : s'.Ordered) (hk : s.Renamable κ ε)
    (h : s.RenamedTo κ ε s') {c : ClassDef} (hc : c ∈ s.classes) :
    s'.renderedNames.classes (κ c.name.real) = s.renderedNames.classes c.name.real := by
  obtain ⟨d, hd, hreal⟩ := h.exists_class hc
  obtain ⟨top, htop, hname, hshown, hlast⟩ := renderedNames_classes_eq_some hs ⟨c, hc, rfl⟩
  obtain ⟨top', htop', hname', hshown', hlast'⟩ :=
    renderedNames_classes_eq_some hs' ⟨d, hd, hreal.real⟩
  -- both are the last class of the name: neither can come before the other
  obtain ⟨old, hold, hren⟩ := h.exists_old_class htop'
  have holdname : old.name.real = c.name.real :=
    hk.classes old hold c hc (hren.real.symm.trans hname')
  obtain ⟨new, hnew, hnewren⟩ := h.exists_class htop
  have hnewname : new.name.real = κ c.name.real := by rw [hnewren.real, hname]
  have hmode : old.mode = top.mode := by
    have h₁ := hlast old hold holdname
    have h₂ := hlast' new hnew hnewname
    rw [hnewren.mode, hren.mode] at h₂
    revert h₁ h₂
    cases old.mode <;> cases top.mode <;> simp
  have hsame : old = top := List.inj_on_of_nodup_map hs.classes hold htop
    (Prod.ext (holdname.trans hname.symm) hmode)
  rw [hshown, hshown', hren.rendered, hsame]

theorem renderedNames_enum (hs : s.Ordered) (hk : s.Renamable κ ε) (h : s.RenamedTo κ ε s')
    {e : EnumDef} (he : e ∈ s.enums) :
    s'.renderedNames.enums (ε e.name.real) = s.renderedNames.enums e.name.real := by
  have shown {t : Schema} {n : String} (h : ∃ e ∈ t.enums, e.name.real = n) :
      ∃ f ∈ t.enums, f.name.real = n ∧ t.renderedNames.enums n = some f.name.rendered := by
    obtain ⟨e, he, hname⟩ := h
    have hsome : (t.enums.reverse.find? fun e => e.name.real == n).isSome = true :=
      List.find?_isSome.2 ⟨e, List.mem_reverse.2 he, beq_iff_eq.2 hname⟩
    obtain ⟨f, hfind⟩ := Option.isSome_iff_exists.1 hsome
    have hf := List.find?_some hfind
    exact ⟨f, List.mem_reverse.1 (List.mem_of_find?_eq_some hfind), beq_iff_eq.1 hf,
      congrArg (Option.map _) hfind⟩
  obtain ⟨f, hf, hreal⟩ := h.exists_enum he
  obtain ⟨e₁, he₁, hname, hshown⟩ := shown ⟨e, he, rfl⟩
  obtain ⟨f₁, hf₁, hname', hshown'⟩ := shown ⟨f, hf, hreal.real⟩
  obtain ⟨old, hold, hren⟩ := h.exists_old_enum hf₁
  have holdname : old.name.real = e.name.real :=
    hk.enums old hold e he (hren.real.symm.trans hname')
  have hsame : old = e₁ :=
    List.inj_on_of_nodup_map hs.enums hold he₁ (holdname.trans hname.symm)
  rw [hshown, hshown', hren.rendered, hsame]

/-- Renaming first and rendering then shows every reference as it was shown before. -/
theorem factors (hs : s.Ordered) (hs' : s'.Ordered) (hk : s.Renamable κ ε)
    (h : s.RenamedTo κ ε s') {r : Reference} (hr : s.Accounts κ r) :
    (s.newNames κ ε).Factors s'.renderedNames s.renderedNames r := by
  cases r with
  | enumOf n =>
    obtain ⟨e, he, rfl⟩ := hr
    show (s'.renderedNames.enums _).getD _ = _
    rw [newNames_enums_eq_some he, Option.getD_some, renderedNames_enum hs hk h he]
    have hsome : (s.renderedNames.enums e.name.real).isSome = true := by
      unfold renderedNames
      rw [Option.isSome_map]
      exact List.find?_isSome.2 ⟨e, List.mem_reverse.2 he, beq_iff_eq.2 rfl⟩
    obtain ⟨shown, hshown⟩ := Option.isSome_iff_exists.1 hsome
    rw [hshown, Option.getD_some, Option.getD_some]
  | classOf n =>
    obtain ⟨c, hc, rfl⟩ := hr
    show (s'.renderedNames.classes _).getD _ = _
    rw [newNames_classes_eq_some hc, Option.getD_some, renderedNames_class hs hs' hk h hc]
    obtain ⟨top, -, -, hshown, -⟩ := renderedNames_classes_eq_some hs ⟨c, hc, rfl⟩
    rw [hshown, Option.getD_some, Option.getD_some]
  | aliasOf n =>
    have hnew : ∀ d ∈ s'.classes, d.name.real ≠ n := fun d hd => by
      obtain ⟨c, hc, hren⟩ := h.exists_old_class hd
      rw [hren.real]
      exact (hr c hc).2
    show (s'.renderedNames.classes _).getD _ = _
    rw [newNames_classes_eq_none fun c hc => (hr c hc).1, Option.getD_none,
      renderedNames_classes_eq_none hnew, renderedNames_classes_eq_none fun c hc => (hr c hc).1]

/-! ## Payloads -/

theorem typeView_renamed (hs : s.Ordered) (hs' : s'.Ordered) (hk : s.Renamable κ ε)
    (h : s.RenamedTo κ ε s') {t : Ty Authored} (ht : t ∈ s.shownTypes) :
    s'.typeView (t.rename (s.newNames κ ε)) = s.typeView t :=
  congrArg Ty.toNative (Ty.rename_rename fun r hr =>
    factors hs hs' hk h (hk.references t ht r hr))

theorem classView_renamed (hs : s.Ordered) (hs' : s'.Ordered) (hk : s.Renamable κ ε)
    (h : s.RenamedTo κ ε s') {c d : ClassDef} (hc : c ∈ s.classes)
    (hren : c.Renames κ (s.newNames κ ε) d) : s'.classView d = s.classView c := by
  have hfields : d.fields.map s'.fieldView = c.fields.map s.fieldView := by
    rw [hren.rest, List.map_map]
    refine List.map_congr_left fun f hf => ?_
    have ht : f.type ∈ s.shownTypes :=
      List.mem_cons_of_mem _ (List.mem_flatMap.2 ⟨c, hc, List.mem_map_of_mem hf⟩)
    show s'.fieldView { f with type := f.type.rename _ } = s.fieldView f
    unfold fieldView
    rw [typeView_renamed hs hs' hk h ht]
  unfold classView
  rw [hfields, hren.rendered, hren.rest]

theorem enumView_renamed {e f : EnumDef} (hren : e.Renames ε f) : enumView f = enumView e := by
  unfold enumView
  rw [hren.rendered, hren.rest]

theorem classViews_perm (hs : s.Ordered) (hs' : s'.Ordered) (hk : s.Renamable κ ε)
    (h : s.RenamedTo κ ε s') :
    (s'.classes.map fun d => (d.name.rendered, s'.classView d)).Perm
      (s.classes.map fun c => (c.name.rendered, s.classView c)) := by
  obtain ⟨ds, hds, hperm⟩ := h.classes
  refine (hperm.map _).trans (List.Perm.of_eq (map_eq_of_forall₂ ?_))
  have hmem := (List.forall₂_and_left _ _).2 ⟨fun c hc => hc, hds⟩
  exact hmem.imp fun c d ⟨hc, hren⟩ =>
    Prod.ext hren.rendered (classView_renamed hs hs' hk h hc hren)

theorem enumViews_perm (h : s.RenamedTo κ ε s') :
    (s'.enums.map fun f => (f.name.rendered, enumView f)).Perm
      (s.enums.map fun e => (e.name.rendered, enumView e)) := by
  obtain ⟨fs, hfs, hperm⟩ := h.enums
  refine (hperm.map _).trans (List.Perm.of_eq (map_eq_of_forall₂ ?_))
  exact hfs.imp fun e f hren => Prod.ext hren.rendered (enumView_renamed hren)

/-- What is hashed is the same text before and after renaming. -/
theorem canonical_payload (hs : s.Ordered) (hs' : s'.Ordered) (hk : s.Renamable κ ε)
    (h : s.RenamedTo κ ε s') (o : RenderOptions) :
    (s.payload o).canonical true = (s'.payload o).canonical true := by
  have htarget : s'.typeView s'.target = s.typeView s.target := by
    rw [h.target]
    exact typeView_renamed hs hs' hk h List.mem_cons_self
  unfold payload Native.canonical
  simp only [Native.canonical?, Native.canonicalMembers, htarget,
    canonical_sortViews (classViews_perm hs hs' hk h), canonical_sortViews (enumViews_perm h)]

/-! ## Registering under new names -/

/-- Renaming one to one keeps classes from competing for a name. -/
theorem nodup_renamed_classes (hs : s.Ordered) (hk : s.Renamable κ ε) {ds : List ClassDef}
    (h : List.Forall₂ (ClassDef.Renames κ (s.newNames κ ε)) s.classes ds) :
    (ds.map ClassDef.key).Nodup := by
  have hmem := (List.forall₂_and_left _ _).2 ⟨fun c hc => hc, h⟩
  refine List.pairwise_map.2 (pairwise_of_forall₂ hmem (List.pairwise_map.1 hs.classes) ?_)
  rintro c c' d d' ⟨hc, hd⟩ ⟨hc', hd'⟩ hne heq
  obtain ⟨hname, hmode⟩ := Prod.mk.inj heq
  rw [hd.real, hd'.real] at hname
  rw [hd.mode, hd'.mode] at hmode
  exact hne (Prod.ext (hk.classes c hc c' hc' hname) hmode)

theorem nodup_renamed_enums (hs : s.Ordered) (hk : s.Renamable κ ε) {fs : List EnumDef}
    (h : List.Forall₂ (EnumDef.Renames ε) s.enums fs) : (fs.map EnumDef.key).Nodup := by
  have hmem := (List.forall₂_and_left _ _).2 ⟨fun e he => he, h⟩
  refine List.pairwise_map.2 (pairwise_of_forall₂ hmem (List.pairwise_map.1 hs.enums) ?_)
  rintro e e' f f' ⟨he, hf⟩ ⟨he', hf'⟩ hne heq
  have hname : f.name.real = f'.name.real := heq
  rw [hf.real, hf'.real] at hname
  exact hne (hk.enums e he e' he' hname)

/-- The schema of the renamed definitions, registered in any order. -/
theorem renamedTo_freeze (hs : s.Ordered) (hk : s.Renamable κ ε) {ds : List ClassDef}
    {fs : List EnumDef} {xs : List Registration}
    (hds : List.Forall₂ (ClassDef.Renames κ (s.newNames κ ε)) s.classes ds)
    (hfs : List.Forall₂ (EnumDef.Renames ε) s.enums fs)
    (hclasses : (xs.filterMap Registration.class?).Perm ds)
    (henums : (xs.filterMap Registration.enum?).Perm fs) :
    s.RenamedTo κ ε
      ((Registry.ofRegistrations xs).freeze (s.target.rename (s.newNames κ ε))) where
  target := rfl
  classes := by
    have nd := (hclasses.map _).nodup_iff.2 (nodup_renamed_classes hs hk hds)
    rw [← Registry.classes_ofRegistrations nd] at hclasses
    exact ⟨ds, hds, (List.mergeSort_perm _ _).trans hclasses⟩
  enums := by
    have nd := (henums.map _).nodup_iff.2 (nodup_renamed_enums hs hk hfs)
    rw [← Registry.enums_ofRegistrations nd] at henums
    exact ⟨fs, hfs, (List.mergeSort_perm _ _).trans henums⟩

theorem ordered_ofRegistrations (xs : List Registration) (target : Ty Authored) :
    ((Registry.ofRegistrations xs).freeze target).Ordered :=
  ordered_freeze (Registry.nodup_classes xs) (Registry.nodup_enums xs) target

/-- Real names of classes and enums never influence the fingerprint: the definitions `ds` and `fs`
are those of `s` under new real names, and `s'` is made of them in any order of registration. -/
theorem fingerprint_renamed {xs xs' : List Registration} {target : Ty Authored}
    {ds : List ClassDef} {fs : List EnumDef}
    (hs : s = (Registry.ofRegistrations xs).freeze target) (hk : s.Renamable κ ε)
    (hds : List.Forall₂ (ClassDef.Renames κ (s.newNames κ ε)) s.classes ds)
    (hfs : List.Forall₂ (EnumDef.Renames ε) s.enums fs)
    (hclasses : (xs'.filterMap Registration.class?).Perm ds)
    (henums : (xs'.filterMap Registration.enum?).Perm fs)
    (hs' : s' = (Registry.ofRegistrations xs').freeze (target.rename (s.newNames κ ε)))
    (o : RenderOptions) : (s.payload o).canonical true = (s'.payload o).canonical true ∧
      s.fingerprint o = s'.fingerprint o := by
  have hordered : s.Ordered := hs ▸ ordered_ofRegistrations xs target
  have htarget : s.target = target := by rw [hs]; rfl
  have hordered' : s'.Ordered := hs' ▸ ordered_ofRegistrations xs' _
  have hrenamed : s.RenamedTo κ ε s' := by
    rw [hs', ← htarget]
    exact renamedTo_freeze hordered hk hds hfs hclasses henums
  have htext := canonical_payload hordered hordered' hk hrenamed o
  refine ⟨htext, ?_⟩
  unfold fingerprint
  rw [htext]

/-- The class of a link to another one. -/
def linkClass (name : Name) (next : String) : ClassDef where
  name := name
  fields := [⟨⟨"next", none⟩, .union [.classRef next .complete false {}] (some {}) {}, none, false⟩]

/-- The class of a coloured link before a chain. -/
def hueClass (name : Name) (hue : String) : ClassDef where
  name := name
  fields := [⟨⟨"hue", none⟩, .enumRef hue false {}, none, false⟩,
    ⟨⟨"rest", none⟩, .aliasRef "Chain" .complete {}, none, false⟩]

def hueEnum (name : Name) : EnumDef where
  name := name
  values := [⟨⟨"RED", some "red"⟩, none⟩]

/-- Two classes that are both rendered `Link`, an enum and an alias. -/
def linkRegistrations (plain coloured hue : Name) : List Registration := [
  .ofEnum (hueEnum hue), .ofClass (linkClass plain coloured.real),
  .ofClass (hueClass coloured hue.real),
  .ofAlias "Chain" (.list (.classRef plain.real .complete false {}) {})]

def links : Schema :=
  (Registry.ofRegistrations (linkRegistrations ⟨"Link", none⟩ ⟨"Link_2", some "Link"⟩
    ⟨"Hue", none⟩)).freeze (.classRef "Link" .complete false {})

/-- The classes of links trade their names, and the order of all registrations is turned around. -/
def renamedRegistrations : List Registration :=
  (linkRegistrations ⟨"Link_2", some "Link"⟩ ⟨"Link", none⟩ ⟨"Colour", some "Hue"⟩).reverse

def renamedLinks : Schema :=
  (Registry.ofRegistrations renamedRegistrations).freeze (.classRef "Link_2" .complete false {})

/-- The trade of names. -/
def trade (n : String) : String := if n = "Link" then "Link_2" else "Link"

theorem renamable_links : links.classes = [linkClass ⟨"Link", none⟩ "Link_2",
      hueClass ⟨"Link_2", some "Link"⟩ "Hue"] ∧ links.enums = [hueEnum ⟨"Hue", none⟩] ∧
    links.Renamable trade fun _ => "Colour" := by
  have hclasses : links.classes = [linkClass ⟨"Link", none⟩ "Link_2",
      hueClass ⟨"Link_2", some "Link"⟩ "Hue"] := List.mergeSort_of_pairwise (by decide)
  have henums : links.enums = [hueEnum ⟨"Hue", none⟩] := List.mergeSort_of_pairwise (by decide)
  refine ⟨hclasses, henums, ?_, ?_, fun t ht r hr => ?_⟩
  · rw [hclasses]
    decide
  · rw [henums]
    decide
  · have htarget : links.target = .classRef "Link" .complete false {} := rfl
    unfold shownTypes at ht
    rw [hclasses, htarget] at ht
    simp [linkClass, hueClass] at ht
    rcases ht with rfl | rfl | rfl | rfl <;> simp at hr <;> subst hr <;>
      simp [Accounts, hclasses, henums, linkClass, hueClass, hueEnum, trade]

/-- Two classes with one rendered name trade their real names. -/
theorem fingerprint_renamed_links : links.Renamable trade (fun _ => "Colour") ∧
    (links.payload {}).canonical true = (renamedLinks.payload {}).canonical true ∧
    links.fingerprint {} = renamedLinks.fingerprint {} := by
  obtain ⟨hclasses, henums, hk⟩ := renamable_links
  have hds : List.Forall₂ (ClassDef.Renames trade (links.newNames trade fun _ => "Colour"))
      links.classes [linkClass ⟨"Link_2", some "Link"⟩ "Link",
        hueClass ⟨"Link", none⟩ "Colour"] := by
    rw [hclasses]
    refine .cons ⟨rfl, rfl, ?_⟩ (.cons ⟨rfl, rfl, ?_⟩ .nil)
    · simp [linkClass, Ty.rename, Ty.renames, newNames, hclasses, hueClass, trade]
    · simp [linkClass, Ty.rename, newNames, hclasses, henums, hueClass, hueEnum]
  have hfs : List.Forall₂ (EnumDef.Renames fun _ => "Colour") links.enums
      [hueEnum ⟨"Colour", some "Hue"⟩] := by
    rw [henums]
    exact .cons ⟨rfl, rfl, rfl⟩ .nil
  have hperm : (renamedRegistrations.filterMap Registration.class?).Perm
      [linkClass ⟨"Link_2", some "Link"⟩ "Link", hueClass ⟨"Link", none⟩ "Colour"] :=
    .swap _ _ _
  have hlinks : renamedLinks = (Registry.ofRegistrations renamedRegistrations).freeze
      ((Ty.classRef "Link" .complete false {}).rename
        (links.newNames trade fun _ => "Colour")) := by
    simp [renamedLinks, Ty.rename, newNames, hclasses, linkClass, trade]
  exact ⟨hk, fingerprint_renamed rfl hk hds hfs hperm (.refl _) hlinks {}⟩

end Schema

end ShapeSchema
