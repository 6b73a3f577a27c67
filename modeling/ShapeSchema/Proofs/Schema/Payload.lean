import ShapeSchema.Proofs.Schema.Fingerprint
import ShapeSchema.Proofs.Ty.Canonical

/-!
# What a fingerprint tells

The text that a fingerprint hashes tells the render options and the schema as it is shown, and
nothing else (`Schema.payload_eq_iff`): the target, and the classes and enums as they are seen from
outside (`ClassView`, `EnumView`), each as often as it occurs but in no order. What a text tells is
said as a relation between the things it is made from (`Native.Tells`); a record tells what its
members tell (`Native.tells_ofMembers`), and views in order tell themselves up to their order
(`Schema.tells_sortViews`).
-/

namespace ShapeSchema

/-! ## What data tells -/

namespace Native

variable {α β : Type} {f : α → Native} {R : α → α → Prop}

/-- Data has one text exactly if it is made from related things. -/
structure Tells (f : α → Native) (R : α → α → Prop) : Prop where
  clear : ∀ x, (f x).Clear true
  iff : ∀ x y, (f x).canonical true = (f y).canonical true ↔ R x y

theorem tells_eq (clear : ∀ x, (f x).Clear true)
    (inj : ∀ {x y}, (f x).canonical true = (f y).canonical true → x = y) : Tells f (· = ·) :=
  ⟨clear, fun x y => ⟨inj, fun h => by rw [h]⟩⟩

/-- A member of a record of things, and what it tells about them. -/
structure Member (α : Type) where
  key : String
  view : α → Native
  same : α → α → Prop
  tells : Tells view same

/-- A member that is made from one part of a thing. -/
def Member.of (key : String) (h : Tells f R) (part : β → α) : Member β where
  key := key
  view x := f (part x)
  same x y := R (part x) (part y)
  tells := ⟨fun x => h.clear (part x), fun x y => h.iff (part x) (part y)⟩

def ofMembers (ms : List (Member α)) (x : α) : Native := .object (ms.map fun m => (m.key, m.view x))

/-- A record tells what its members tell. -/
theorem tells_ofMembers {ms : List (Member α)} (nd : (ms.map Member.key).Nodup) :
    Tells (ofMembers ms) fun x y => ∀ m ∈ ms, m.same x y := by
  have clear (x : α) : ∀ p ∈ ms.map fun m => (m.key, m.view x), p.2.Clear true :=
    List.forall_mem_map.2 fun m _ => m.tells.clear x
  have texts (x : α) : canonicalMembers true (ms.map fun m => (m.key, m.view x))
      = ms.map fun m => (m.key, (m.view x).canonical true) := by
    rw [canonicalMembers_eq_map (clear x)]
    simp [memberTexts]
  refine ⟨fun x => clear_object (clear x), fun x y => ⟨fun h m hm => ?_, fun h => ?_⟩⟩
  · have keys (x : α) : (Entries.keys (ms.map fun m => (m.key, m.view x))).Nodup := by
      rwa [Entries.keys, List.map_map]
    have found (x : α) : Entries.find? (ms.map fun m => (m.key, m.view x)) m.key
        = some (m.view x) :=
      Entries.find?_eq_some_of_mem (keys x) (List.mem_map_of_mem hm)
    have hmember := find?_canonical_eq_of_object (clear x) (clear y) (keys x) h m.key (.inl rfl)
    rw [found, found] at hmember
    exact (m.tells.iff x y).1 (Option.some.inj hmember)
  · have hsame : (ms.map fun m => (m.key, (m.view x).canonical true))
        = ms.map fun m => (m.key, (m.view y).canonical true) :=
      List.map_congr_left fun m hm => by rw [(m.tells.iff x y).2 (h m hm)]
    unfold ofMembers canonical
    rw [canonical?, canonical?, texts, texts, hsame]

/-- A record of everything a thing consists of tells the thing. -/
theorem tells_ofMembers_eq {ms : List (Member α)} (nd : (ms.map Member.key).Nodup)
    (h : ∀ x y, (∀ m ∈ ms, m.same x y) → x = y) : Tells (ofMembers ms) (· = ·) :=
  have hr := tells_ofMembers nd
  tells_eq hr.clear fun heq => h _ _ ((hr.iff _ _).1 heq)

theorem Tells.array (hf : Tells f (· = ·)) :
    Tells (fun xs : List α => .array (xs.map f)) (· = ·) := by
  have clear (xs : List α) : ∀ v ∈ xs.map f, v.Clear true :=
    List.forall_mem_map.2 fun x _ => hf.clear x
  refine tells_eq (fun xs => clear_array (clear xs)) fun {xs ys} heq => ?_
  have htexts := map_canonical_eq_of_array (clear xs) (clear ys) heq
  rw [List.map_map, List.map_map] at htexts
  exact List.map_injective_iff.2 (fun x y => (hf.iff x y).1) htexts

theorem tells_text : Tells text (· = ·) := tells_eq (clear_text true) text_eq_of_canonical

theorem tells_bool : Tells bool (· = ·) := tells_eq (clear_bool true) flag_eq_of_canonical

theorem tells_constraints : Tells constraintsToNative (· = ·) :=
  tells_eq (clear_constraints true) constraints_eq_of_canonical

theorem tells_type : Tells (fun t : Ty Authored => t.toNative) (· = ·) :=
  tells_eq (fun _ => Ty.clear_toNative Authored.legible.tells _)
    (Ty.eq_of_canonical Authored.legible)

/-- A description that is left out is told from the empty one. -/
theorem tells_optionalText : Tells optionalText (· = ·) := by
  have hquoted (s : String) : Native.null.canonical true ≠ (text s).canonical true := by
    intro h
    have hchars : "null".toList = (Text.quoted s).toList := congrArg String.toList h
    rw [Text.quoted, String.toList_ofList] at hchars
    simp [Text.quotedChars] at hchars
  refine tells_eq (fun t => ?_) fun {t u} heq => ?_
  · cases t with
    | none => exact ⟨rfl, .null⟩
    | some s => exact clear_text true s
  · cases t with
    | none =>
      cases u with
      | none => rfl
      | some s => exact absurd heq (hquoted s)
    | some s =>
      cases u with
      | none => exact absurd heq.symm (hquoted s)
      | some s' => rw [text_eq_of_canonical heq]

end Native

open Native (Member Tells ofMembers tells_bool tells_constraints tells_optionalText tells_ofMembers
  tells_ofMembers_eq tells_text tells_type)

/-! ## Render options -/

theorem MapStyle.text_injective {a b : MapStyle} (h : a.text = b.text) : a = b := by
  cases a <;> cases b <;> first | rfl | exact absurd h (by decide)

theorem HoistClasses.text_injective {a b : HoistClasses} (h : a.text = b.text) : a = b := by
  cases a <;> cases b <;> first | rfl | exact absurd h (by decide)

namespace RenderOptions

def members : List (Member RenderOptions) := [
  .of "prefix" tells_optionalText (·.preamble), .of "orSplitter" tells_text (·.orSplitter),
  .of "enumValuePrefix" tells_optionalText (·.enumValueLead),
  .of "alwaysHoistEnums" tells_bool (·.alwaysHoistEnums),
  .of "mapStyle" tells_text (·.mapStyle.text), .of "hoistClasses" tells_text (·.hoistClasses.text),
  .of "quoteClassFields" tells_bool (·.quoteClassFields)]

theorem toNative_eq_ofMembers (o : RenderOptions) : o.toNative = ofMembers members o := rfl

theorem tells : Tells (ofMembers members) (· = ·) := by
  refine tells_ofMembers_eq (by decide) fun o p h => ?_
  simp only [members, Member.of, List.forall_mem_cons] at h
  obtain ⟨hpreamble, hsplitter, hlead, halways, hstyle, hhoist, hquote, -⟩ := h
  cases o
  cases p
  simp only [RenderOptions.mk.injEq]
  exact ⟨hpreamble, hsplitter, hlead, halways, MapStyle.text_injective hstyle,
    HoistClasses.text_injective hhoist, hquote⟩

end RenderOptions

/-! ## Views -/

/-- A field as it is shown. -/
structure FieldView where
  name : String
  type : Ty Authored
  description : Option String

/-- A class as it is shown. -/
structure ClassView where
  name : String
  description : Option String
  mode : Mode
  constraints : List Constraint
  fields : List FieldView

/-- A value of an enum as it is shown. -/
structure ValueView where
  name : String
  description : Option String

/-- An enum as it is shown. -/
structure EnumView where
  name : String
  description : Option String
  constraints : List Constraint
  values : List ValueView

namespace FieldView

def members : List (Member FieldView) := [
  .of "name" tells_text (·.name), .of "type" tells_type (·.type),
  .of "description" tells_optionalText (·.description)]

theorem tells : Tells (ofMembers members) (· = ·) := by
  refine tells_ofMembers_eq (by decide) fun v w h => ?_
  cases v
  cases w
  simpa [members, Member.of] using h

end FieldView

namespace ClassView

def members : List (Member ClassView) := [
  .of "name" tells_text (·.name), .of "description" tells_optionalText (·.description),
  .of "mode" tells_text (·.mode.text), .of "constraints" tells_constraints (·.constraints),
  .of "fields" FieldView.tells.array (·.fields)]

theorem tells : Tells (ofMembers members) (· = ·) := by
  refine tells_ofMembers_eq (by decide) fun v w h => ?_
  simp only [members, Member.of, List.forall_mem_cons] at h
  obtain ⟨hname, hdescription, hmode, hconstraints, hfields, -⟩ := h
  cases v
  cases w
  simp only [ClassView.mk.injEq]
  exact ⟨hname, hdescription, Mode.text_injective hmode, hconstraints, hfields⟩

end ClassView

namespace ValueView

def members : List (Member ValueView) := [
  .of "name" tells_text (·.name), .of "description" tells_optionalText (·.description)]

theorem tells : Tells (ofMembers members) (· = ·) := by
  refine tells_ofMembers_eq (by decide) fun v w h => ?_
  cases v
  cases w
  simpa [members, Member.of] using h

end ValueView

namespace EnumView

def members : List (Member EnumView) := [
  .of "name" tells_text (·.name), .of "description" tells_optionalText (·.description),
  .of "constraints" tells_constraints (·.constraints),
  .of "values" ValueView.tells.array (·.values)]

theorem tells : Tells (ofMembers members) (· = ·) := by
  refine tells_ofMembers_eq (by decide) fun v w h => ?_
  cases v
  cases w
  simpa [members, Member.of] using h

end EnumView

namespace Schema

/-- A type with every reference under its rendered name. -/
def shownType (s : Schema) (t : Ty Authored) : Ty Authored := t.rename s.renderedNames

def shownClass (s : Schema) (c : ClassDef) : ClassView where
  name := c.name.rendered
  description := c.description
  mode := c.mode
  constraints := c.constraints
  fields := c.fields.map fun f => ⟨f.name.rendered, s.shownType f.type, f.description⟩

def shownEnum (e : EnumDef) : EnumView where
  name := e.name.rendered
  description := e.description
  constraints := e.constraints
  values := e.values.map fun v => ⟨v.name.rendered, v.description⟩

theorem classView_eq (s : Schema) (c : ClassDef) :
    s.classView c = ofMembers ClassView.members (s.shownClass c) := by
  unfold classView ofMembers ClassView.members shownClass
  simp only [List.map_cons, List.map_nil, Member.of, List.map_map]
  rfl

theorem enumView_eq (e : EnumDef) : enumView e = ofMembers EnumView.members (shownEnum e) := by
  unfold enumView ofMembers EnumView.members shownEnum
  simp only [List.map_cons, List.map_nil, Member.of, List.map_map]
  rfl

/-! ## Views in order -/

section

variable {α : Type} {f : α → Native}

/-- Views with the names that they are ordered by. -/
def named (name : α → String) (f : α → Native) (xs : List α) : List (String × Native) :=
  xs.map fun x => (name x, f x)

/-- Each view in order is made from one of the things shown. -/
theorem sortViews_named (name : α → String) (f : α → Native) (xs : List α) :
    ∃ ys : List α, ys.Perm xs ∧ sortViews (named name f xs) = .array (ys.map f) := by
  let le (x y : α) : Bool := viewLe (name x, f x) (name y, f y)
  have hsort : named name f (xs.mergeSort le) = (named name f xs).mergeSort viewLe :=
    List.map_mergeSort fun _ _ _ _ => rfl
  refine ⟨xs.mergeSort le, List.mergeSort_perm _ _, ?_⟩
  unfold sortViews
  rw [← hsort, named, List.map_map]
  rfl

/-- The text of views in order tells what is shown, but not in which order. -/
theorem tells_sortViews (name : α → String) (hf : Tells f (· = ·)) :
    Tells (fun xs => sortViews (named name f xs)) List.Perm := by
  refine ⟨fun xs => ?_, fun xs ys => ⟨fun h => ?_, fun h => ?_⟩⟩
  · obtain ⟨xs', -, hx⟩ := sortViews_named name f xs
    simp only [hx]
    exact hf.array.clear xs'
  · obtain ⟨xs', hxs, hx⟩ := sortViews_named name f xs
    obtain ⟨ys', hys, hy⟩ := sortViews_named name f ys
    rw [hx, hy, hf.array.iff xs' ys'] at h
    rw [h] at hxs
    exact hxs.symm.trans hys
  · have hviews : (named name f xs).Perm (named name f ys) := h.map _
    unfold Native.canonical
    rw [canonical_sortViews hviews]

end

/-! ## Payloads -/

/-- What a payload is made from. -/
def payloadMembers : List (Member (Schema × RenderOptions)) := [
  .of "options" RenderOptions.tells (·.2),
  .of "target" tells_type fun q => q.1.shownType q.1.target,
  .of "classes" (tells_sortViews ClassView.name ClassView.tells)
    fun q => q.1.classes.map q.1.shownClass,
  .of "enums" (tells_sortViews EnumView.name EnumView.tells) fun q => q.1.enums.map shownEnum]

theorem payload_eq_ofMembers (s : Schema) (o : RenderOptions) :
    s.payload o = ofMembers payloadMembers (s, o) := by
  unfold payload ofMembers payloadMembers
  simp only [List.map_cons, List.map_nil, Member.of, named, List.map_map, classView_eq, enumView_eq,
    RenderOptions.toNative_eq_ofMembers]
  rfl

/-- Two payloads have one text exactly if the render options are the same, the targets are the same
type under rendered names, and the same classes and enums are shown, each equally often. -/
theorem payload_eq_iff (s s' : Schema) (o p : RenderOptions) :
    (s.payload o).canonical true = (s'.payload p).canonical true ↔
      o = p ∧ s.shownType s.target = s'.shownType s'.target ∧
      (s.classes.map s.shownClass).Perm (s'.classes.map s'.shownClass) ∧
      (s.enums.map shownEnum).Perm (s'.enums.map shownEnum) := by
  have keys : (payloadMembers.map Member.key).Nodup := by decide
  rw [payload_eq_ofMembers, payload_eq_ofMembers, (tells_ofMembers keys).iff]
  simp [payloadMembers, Member.of]

end Schema

end ShapeSchema
