import ShapeSchema.Proofs.Native.KeyOrder
import ShapeSchema.Proofs.Schema.Fingerprint

/-!
# Key order of types and schemas

Types, views and payloads are compared and hashed as objects. However these objects were put
together, the canonical text is that of the data as `Ty.toNative` and `Schema.payload` list it, so
equality, hashes and fingerprints come out the same (`canonical_eq_of_alike`).
-/

namespace ShapeSchema

open Native (Alike)

namespace Schema

/-! ## A payload from its parts -/

/-- What a fingerprint hashes, put together from render options, a target and views. -/
def payloadOf (options target : Native) (classes enums : List (String × Native)) : Native :=
  .object [("options", options), ("target", target), ("classes", sortViews classes),
    ("enums", sortViews enums)]

def classViews (s : Schema) : List (String × Native) :=
  s.classes.map fun c => (c.name.rendered, s.classView c)

def enumViews (s : Schema) : List (String × Native) :=
  s.enums.map fun e => (e.name.rendered, enumView e)

theorem payload_eq (s : Schema) (o : RenderOptions) :
    s.payload o = payloadOf o.toNative (s.typeView s.target) s.classViews s.enumViews := rfl

/-- Views under the same names that differ in the order of object members only. -/
def AlikeViews : List (String × Native) → List (String × Native) → Prop :=
  List.Forall₂ fun v w => v.1 = w.1 ∧ Alike v.2 w.2

theorem AlikeViews.keys {vs ws : List (String × Native)} (h : AlikeViews vs ws) :
    vs.map viewKey = ws.map viewKey := by
  induction h with
  | nil => rfl
  | cons hvw _ ih =>
    have htext := Native.canonical?_eq_of_alike true hvw.2
    rw [List.map_cons, List.map_cons, ih, viewKey, viewKey, Native.canonical, Native.canonical,
      hvw.1, htext]

/-- Views are put in order by their names and texts, whatever the order of the members in them. -/
theorem canonical_sortViews_of_alike {vs ws : List (String × Native)} (h : AlikeViews vs ws) :
    (sortViews vs).canonical? true = (sortViews ws).canonical? true :=
  canonical_sortViews_of_keys (.of_eq h.keys)

theorem canonical_payloadOf_of_alike {options options' target target' : Native}
    {classes classes' enums enums' : List (String × Native)} (ho : Alike options options')
    (ht : Alike target target') (hc : AlikeViews classes classes') (he : AlikeViews enums enums') :
    (payloadOf options target classes enums).canonical true
      = (payloadOf options' target' classes' enums').canonical true := by
  unfold payloadOf Native.canonical
  simp only [Native.canonical?, Native.canonicalMembers, Native.canonical?_eq_of_alike true ho,
    Native.canonical?_eq_of_alike true ht, canonical_sortViews_of_alike hc,
    canonical_sortViews_of_alike he]

/-! ## Equality, hashes and fingerprints -/

/-- The order in which the members of objects were set shows nowhere: not in canonical texts, with
or without the members called `meta`, not in what types are equal to and hashed to, and not in
fingerprints, neither through the parts of a payload nor through the payload itself. -/
theorem canonical_eq_of_alike :
    (∀ (full : Bool) (v w : Native), Alike v w → v.canonical full = w.canonical full) ∧
    (∀ (μ ν : Type) [Metadata μ] [Metadata ν] (t : Ty μ) (u : Ty ν) (v w : Native),
      Alike t.toNative v → Alike u.toNative w →
        (v.canonical true == w.canonical true) = t.same u ∧
        (v.canonical false == w.canonical false) = t.sameShape u ∧
        ∀ full, "type:sha256:" ++ Digest.shortHex (v.canonical full) = t.hash full) ∧
    ∀ (s : Schema) (o : RenderOptions) (options target payload : Native)
      (classes enums : List (String × Native)),
      Alike o.toNative options → Alike (s.typeView s.target) target →
        AlikeViews s.classViews classes → AlikeViews s.enumViews enums →
        Alike (payloadOf options target classes enums) payload →
        "schema:sha256:" ++ Digest.shortHex (payload.canonical true) = s.fingerprint o := by
  have text (full : Bool) (v w : Native) (h : Alike v w) :
      v.canonical full = w.canonical full :=
    congrArg (fun t => t.getD "null") (Native.canonical?_eq_of_alike full h)
  refine ⟨text, fun μ ν _ _ t u v w hv hw => ⟨?_, ?_, fun full => ?_⟩,
    fun s o options target payload classes enums ho ht hc he hp => ?_⟩
  · rw [← text true _ _ hv, ← text true _ _ hw]
    rfl
  · rw [← text false _ _ hv, ← text false _ _ hw]
    rfl
  · rw [← text full _ _ hv]
    rfl
  · rw [← text true _ _ hp, ← canonical_payloadOf_of_alike ho ht hc he]
    rfl

/-- Data with keys that are array indices, a member that is absent, a whole number beyond the number
type, and objects in an array and in a map. -/
def nested : Native := .object [
  ("2", .big 2), ("10", .bool true), ("meta", .object [("b", .null), ("a", .absent)]),
  ("list", .array [.object [("y", .number (.ofInt 1)), ("x", .absent)]]),
  ("map", .map [(.text "k", .object [("d", .text "d"), ("c", .null)])])]

/-- The same data, put together the other way round at every place. -/
def nestedBackwards : Native := .object [
  ("map", .map [(.text "k", .object [("c", .null), ("d", .text "d")])]),
  ("list", .array [.object [("x", .absent), ("y", .number (.ofInt 1))]]),
  ("meta", .object [("a", .absent), ("b", .null)]), ("10", .bool true), ("2", .big 2)]

theorem alike_nested : Alike nested nestedBackwards := by
  refine Native.alike_object (by decide) (by decide) fun p hp => ?_
  simp only [List.mem_cons, List.not_mem_nil, or_false] at hp
  rcases hp with rfl | rfl | rfl | rfl | rfl
  · exact ⟨_, rfl, .map (.cons (.refl _) .nil) (.cons (Native.alike_reverse (by decide)) .nil)⟩
  · exact ⟨_, rfl, .array (.cons (Native.alike_reverse (by decide)) .nil)⟩
  · exact ⟨_, rfl, Native.alike_reverse (by decide)⟩
  · exact ⟨_, rfl, .refl _⟩
  · exact ⟨_, rfl, .refl _⟩

/-- A schema of one class. -/
def teams : Schema where
  target := .classRef "Team" .complete false {}
  enums := []
  classes := [{
    name := ⟨"Team", none⟩
    fields := [⟨⟨"size", none⟩, .prim .int {}, none, false⟩] }]
  recursiveClasses := []
  aliases := []

/-- An object whose members were set in the opposite order. -/
def backwards : Native → Native
  | .object ms => .object ms.reverse
  | v => v

/-- Nested data and the types and views of a schema, put together the other way round. -/
theorem canonical_eq_of_alike_backwards :
    (Alike nested nestedBackwards ∧
      ∀ full, nested.canonical full = nestedBackwards.canonical full) ∧
    (Alike teams.target.toNative (backwards teams.target.toNative) ∧
      "type:sha256:" ++ Digest.shortHex ((backwards teams.target.toNative).canonical true)
        = teams.target.hash true) ∧
    "schema:sha256:" ++ Digest.shortHex ((backwards (payloadOf
        (backwards (RenderOptions.toNative {})) (backwards (teams.typeView teams.target))
        (teams.classViews.map fun v => (v.1, backwards v.2)) [])).canonical true)
      = teams.fingerprint {} := by
  obtain ⟨text, type, schema⟩ := canonical_eq_of_alike
  have target : Alike teams.target.toNative (backwards teams.target.toNative) :=
    Native.alike_reverse (by decide)
  refine ⟨⟨alike_nested, fun full => text full _ _ alike_nested⟩,
    ⟨target, (type _ _ teams.target teams.target _ _ target target).2.2 true⟩, ?_⟩
  refine schema teams {} _ _ _ _ [] (Native.alike_reverse (by decide))
    (Native.alike_reverse (by decide)) ?_ .nil (Native.alike_reverse (by decide))
  exact .cons ⟨rfl, Native.alike_reverse (by decide)⟩ .nil

end Schema

end ShapeSchema
