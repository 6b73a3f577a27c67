import Mathlib.Data.List.Nodup
import ShapeSchema.Outcome.Diagnostic
import ShapeSchema.Proofs.Text.Filled

/-!
# Messages that show their parameters

A message shows its parameters as they are if their texts are inert and none contains a placeholder
that is filled later and stands behind it in the template, and hardly otherwise (`make_shows`).
-/

namespace ShapeSchema

/-- The text of a parameter. -/
def Diagnostic.shown (v : Native) : List Char := (v.spoken?.getD "").toList

/-- A parameter on characters. -/
def Diagnostic.fill (p : String × Native) : List Char × List Char := (p.1.toList, shown p.2)

namespace DiagnosticCode

/-- The names of the placeholders of the template, in order. -/
def placeholders (code : DiagnosticCode) : List String :=
  (Text.holes (Text.Piece.ofTemplate code.template)).map String.ofList

/-- The template with all its placeholders replaced at once. -/
def filled (code : DiagnosticCode) (params : List (String × Native)) : String :=
  String.ofList (Text.rendered (fun n => (params.map Diagnostic.fill).lookup n)
    (Text.Piece.ofTemplate code.template))

/-- The first name is a placeholder of the template and not the second one or behind it. -/
def Leads (code : DiagnosticCode) (first second : String) : Prop :=
  first ∈ code.placeholders.takeWhile fun name => decide (name ≠ second)

instance (code : DiagnosticCode) (first second : String) : Decidable (code.Leads first second) :=
  inferInstanceAs (Decidable (_ ∈ List.takeWhile _ _))

theorem template_tidy (code : DiagnosticCode) :
    Text.tidy (Text.Piece.ofTemplate code.template) = true := by
  cases code <;> decide

theorem template_nodup (code : DiagnosticCode) :
    (Text.holes (Text.Piece.ofTemplate code.template)).Nodup := by
  cases code <;> decide

theorem template_holes_le (code : DiagnosticCode) :
    (Text.holes (Text.Piece.ofTemplate code.template)).length ≤ 2 := by
  cases code <;> decide

theorem template_starts (code : DiagnosticCode) :
    ∃ c ps, Text.Piece.ofTemplate code.template = .char c :: ps ∧ Text.isPlain c = true := by
  cases code <;> exact ⟨_, _, rfl, by decide⟩

theorem mem_placeholders {code : DiagnosticCode} {name : String} :
    name ∈ code.placeholders ↔ name.toList ∈ Text.holes (Text.Piece.ofTemplate code.template) := by
  rw [placeholders, List.mem_map]
  constructor
  · rintro ⟨n, hn, rfl⟩
    rwa [String.toList_ofList]
  · exact fun h => ⟨name.toList, h, String.ofList_toList⟩

theorem leads_iff {code : DiagnosticCode} {first second : String} :
    code.Leads first second ↔
      first.toList ∈ Text.inFront second.toList (Text.Piece.ofTemplate code.template) := by
  have hmap : code.placeholders.takeWhile (fun name => decide (name ≠ second)) =
      (Text.inFront second.toList (Text.Piece.ofTemplate code.template)).map String.ofList := by
    rw [placeholders, List.takeWhile_map, Text.inFront]
    congr 2
    funext n
    refine decide_eq_decide.2 (not_congr ?_)
    constructor
    · rintro rfl
      exact String.toList_ofList.symm
    · rintro rfl
      exact String.ofList_toList
  rw [Leads, hmap, List.mem_map]
  constructor
  · rintro ⟨n, hn, rfl⟩
    rwa [String.toList_ofList]
  · exact fun h => ⟨first.toList, h, String.ofList_toList⟩

end DiagnosticCode

namespace Diagnostic

theorem toList_placeholder (key : String) : (placeholder key).toList = Text.mark key.toList := by
  rw [placeholder, String.toList_append, String.toList_append]
  rfl

theorem toList_fillFirst (message key text : String) :
    (Text.fillFirst message (placeholder key) text).toList =
      Text.fillOne message.toList (key.toList, text.toList) := by
  rw [Text.fillFirst, Text.fillOne, toList_placeholder]
  cases Text.splitAtFirst (Text.mark key.toList) message.toList with
  | none => rfl
  | some found => exact String.toList_ofList

theorem toList_fillTemplate (template : String) (params : List (String × Native)) :
    (fillTemplate template params).toList =
      (params.map fill).foldl Text.fillOne template.toList := by
  unfold fillTemplate
  induction params generalizing template with
  | nil => rfl
  | cons p params ih =>
    rw [List.foldl_cons, List.map_cons, List.foldl_cons, ih, toList_fillFirst]
    rfl

section Shown

variable {code : DiagnosticCode} {params : List (String × Native)}

theorem message_eq_filled_iff (path : Option String) :
    (make code (some params) path).message = code.filled params ↔
      (params.map fill).foldl Text.fillOne
          (Text.rendered (fun _ => none) (Text.Piece.ofTemplate code.template)) =
        Text.rendered (fun n => (params.map fill).lookup n)
          (Text.Piece.ofTemplate code.template) := by
  rw [Text.rendered_none_ofTemplate, ← toList_fillTemplate]
  constructor
  · intro h
    rw [show fillTemplate code.template params = code.filled params from h, DiagnosticCode.filled,
      String.toList_ofList]
  · intro h
    show fillTemplate code.template params = _
    rw [DiagnosticCode.filled, ← h, String.ofList_toList]

theorem nodup_fill (h : (params.map Prod.fst).Nodup) :
    ((params.map fill).map Prod.fst).Nodup := by
  have hmap : (params.map fill).map Prod.fst = (params.map Prod.fst).map String.toList := by
    rw [List.map_map, List.map_map]
    rfl
  rw [hmap]
  exact (List.nodup_map_iff fun _ _ => String.toList_inj.1).2 h

/-- Filling one placeholder after the other shows all texts as they are, if they are inert and none
brings a placeholder that is filled later. -/
theorem message_of_inert (hdistinct : (params.map Prod.fst).Nodup)
    (hnames : ∀ p ∈ params, Text.IsName p.1.toList)
    (hinert : ∀ p ∈ params, p.1 ∈ code.placeholders → Text.Inert (shown p.2))
    (hfree : params.Pairwise fun p q =>
      code.Leads p.1 q.1 → ¬ (placeholder q.1).toList <:+: shown p.2) (path : Option String) :
    (make code (some params) path).message = code.filled params := by
  rw [message_eq_filled_iff, Text.foldl_fillOne code.template_tidy code.template_nodup]
  · rfl
  · exact List.forall_mem_map.2 hnames
  · exact nodup_fill hdistinct
  · exact fun _ _ => rfl
  · exact List.forall_mem_map.2 fun p hp hmem =>
      hinert p hp (DiagnosticCode.mem_placeholders.2 hmem)
  · intro _ _ _ _ _ hv
    cases hv
  · rw [List.pairwise_map]
    refine hfree.imp fun {p q} h hlead => ?_
    have := h (DiagnosticCode.leads_iff.2 hlead)
    rwa [toList_placeholder] at this

theorem inert_of_message (hdistinct : (params.map Prod.fst).Nodup)
    (hnames : ∀ p ∈ params, Text.IsName p.1.toList)
    (hmem : ∀ p ∈ params, p.1 ∈ code.placeholders) {path : Option String}
    (h : (make code (some params) path).message = code.filled params) :
    ∀ p ∈ params, Text.Inert (shown p.2) := by
  have hall := Text.inert_of_foldl code.template_tidy code.template_nodup code.template_starts
    (List.forall_mem_map.2 hnames) (nodup_fill hdistinct)
    (List.forall_mem_map.2 fun p hp => DiagnosticCode.mem_placeholders.1 (hmem p hp))
    ((message_eq_filled_iff path).1 h)
  exact fun p hp => hall (fill p) (List.mem_map_of_mem hp)

/-- A placeholder that a text brings is filled instead of its own hole. -/
theorem prefix_of_message (hdistinct : (params.map Prod.fst).Nodup)
    (hnames : ∀ p ∈ params, Text.IsName p.1.toList)
    (hmem : ∀ p ∈ params, p.1 ∈ code.placeholders) {path : Option String}
    (h : (make code (some params) path).message = code.filled params) :
    params.Pairwise fun p q => code.Leads p.1 q.1 →
      (placeholder q.1).toList <:+: shown p.2 → (placeholder q.1).toList <+: shown q.2 := by
  have hinert := inert_of_message hdistinct hnames hmem h
  have hlen : params.length ≤ 2 := by
    have hsub : params.map Prod.fst ⊆ code.placeholders := by
      intro name hname
      obtain ⟨p, hp, rfl⟩ := List.mem_map.1 hname
      exact hmem p hp
    have := hdistinct.length_le_of_subset hsub
    rw [List.length_map, DiagnosticCode.placeholders, List.length_map] at this
    exact this.trans code.template_holes_le
  match params, hlen with
  | [], _ => exact List.Pairwise.nil
  | [p], _ => exact List.pairwise_singleton _ p
  | [p, q], _ =>
    refine List.pairwise_pair.2 fun hlead hin => ?_
    rw [toList_placeholder] at hin ⊢
    have hq : q ∈ [p, q] := by simp
    have hne : q.1 ≠ p.1 := by simpa [eq_comm] using hdistinct
    exact Text.mark_prefix_of_foldl code.template_tidy code.template_nodup
      (hnames p List.mem_cons_self) (hnames q hq) (fun h => hne (String.toList_inj.1 h))
      (DiagnosticCode.leads_iff.1 hlead) (DiagnosticCode.mem_placeholders.1 (hmem q hq))
      (hinert p List.mem_cons_self) (hinert q hq) ((message_eq_filled_iff path).1 h) hin

/-- A message is the template with all placeholders replaced at once by the texts of the parameters,
if all texts that are placed are inert and none contains a placeholder that is filled later and does
not stand in front of it. If all parameters are placed, then only inert texts are shown as they are,
and one with such a placeholder only if the text of that placeholder starts with it again. -/
theorem make_shows (code : DiagnosticCode) (params : List (String × Native)) (path : Option String)
    (hdistinct : (params.map Prod.fst).Nodup) (hnames : ∀ p ∈ params, Text.IsName p.1.toList) :
    ((∀ p ∈ params, p.1 ∈ code.placeholders → Text.Inert (shown p.2)) →
      (params.Pairwise fun p q =>
        code.Leads p.1 q.1 → ¬ (placeholder q.1).toList <:+: shown p.2) →
      (make code (some params) path).message = code.filled params) ∧
    ((∀ p ∈ params, p.1 ∈ code.placeholders) →
      (make code (some params) path).message = code.filled params →
      (∀ p ∈ params, Text.Inert (shown p.2)) ∧
        params.Pairwise fun p q => code.Leads p.1 q.1 →
          (placeholder q.1).toList <:+: shown p.2 →
          (placeholder q.1).toList <+: shown q.2) :=
  ⟨fun hinert hfree => message_of_inert hdistinct hnames hinert hfree path,
    fun hmem h =>
      ⟨inert_of_message hdistinct hnames hmem h, prefix_of_message hdistinct hnames hmem h⟩⟩

theorem make_shows_variant :
    (make .unknownVariant
        (some [("expected", .text "Red | \x7bgot\x7d"), ("got", .text "\x7bexpected\x7d")])
        none).message =
      "Unknown variant \x7bexpected\x7d for Red | \x7bgot\x7d" := by
  have hlead : ¬ DiagnosticCode.unknownVariant.Leads "expected" "got" := by decide
  refine (make_shows .unknownVariant
    [("expected", .text "Red | \x7bgot\x7d"), ("got", .text "\x7bexpected\x7d")] none
    (by decide) (by decide)).1 ?_ ?_
  · intro p hp _
    rcases List.mem_pair.1 hp with rfl | rfl
    · exact Text.inert_of_not_mem (by decide)
    · exact Text.inert_of_not_mem (by decide)
  · exact List.pairwise_pair.2 fun h => absurd h hlead

/-- A dollar sign in front of an ampersand stands for the placeholder. -/
theorem make_shows_fails :
    (make .typeMismatch (some [("expected", .text "$&"), ("got", .text "x")]) none).message ≠
        DiagnosticCode.typeMismatch.filled [("expected", .text "$&"), ("got", .text "x")] ∧
      DiagnosticCode.typeMismatch.filled [("expected", .text "$&"), ("got", .text "x")] =
        "Type mismatch: expected $&, got x" := by
  decide

end Shown

end Diagnostic

end ShapeSchema
