import ShapeSchema.Proofs.Convert.Alike
import ShapeSchema.Proofs.Convert.Rests
import ShapeSchema.Proofs.Value.Same
import ShapeSchema.Resolve.Union

/-!
# Equal values are coerced alike

Values that differ in the order of entries and in the sign of zeros only are coerced to equal values,
or refused for the same reason at the same path, and every union resolves for them to the same member
(`Coercer.run_same`). Two runs go over the values side by side. They stay in step since fields are
looked up by name, and since on a closed schema no entry of a map ends the run: whether it is kept
does not depend on the entries before it (`alike_entries`).
-/

namespace ShapeSchema

open Checked

/-- Runs that fail with the same fault are alike, whatever is noted. -/
def sameFaults : Likeness where
  notes _ _ := True
  faults := Eq
  notes_refl _ := trivial
  faults_refl _ := rfl
  notes_append _ _ := trivial
  notes_unjudging _ _ := trivial
  isMisfit h := by rw [h]

namespace Checked

variable {α β : Type} {R : α → β → Prop} {x : Checked α} {y : Checked β}

/-- The values of alike runs are related, if there are any. -/
theorem Alike.value? {L : Likeness} (h : Alike L R x y) : Option.Rel R x.value? y.value? := by
  obtain ⟨_, r⟩ := x
  obtain ⟨_, q⟩ := y
  cases h with
  | ok hab => exact .some hab
  | error => exact .none

end Checked

theorem Literal.matches_eq {v w : Value} (h : v.Like w) (l : Literal) :
    l.matches v = l.matches w := by
  cases h with
  | leaf => rfl
  | _ => cases l <;> rfl

namespace Coercer

open Value (Same Twins Like)

/-! ## Parts of a run -/

section

variable {v w : Value} {path : Path}

theorem alike_misfit {α : Type} {R : α → α → Prop} (h : v.Like w) (expected : String)
    (m : Mismatch) : Alike sameFaults R (misfit path expected v m) (misfit path expected w m) := by
  unfold misfit
  rw [h.describe_eq]
  exact alike_fail rfl

theorem alike_wrongKind {α : Type} {R : α → α → Prop} (h : v.Like w) (t : Ty Authored) :
    Alike sameFaults R (wrongKind t v path) (wrongKind t w path) := alike_misfit h _ _

theorem alike_evaluate (eval : Evaluator) (cs : List Constraint) :
    Alike sameFaults (fun _ _ => True) (evaluateConstraints v cs eval .quiet)
      (evaluateConstraints w cs eval .quiet) := by
  obtain ⟨p, hp⟩ := succeeds_evaluate v cs eval
  obtain ⟨q, hq⟩ := succeeds_evaluate w cs eval
  unfold Alike
  rw [hp, hq]
  exact .ok trivial trivial

/-- A run is alike to itself if the values it can give are equal to themselves. -/
theorem alike_self {x : Checked Value} (h : ∀ a n, x.result = .ok (a, n) → a.Same a) :
    Alike sameFaults Same x x := by
  unfold Alike
  cases hx : x.result with
  | error f => exact .error rfl
  | ok p => exact .ok (h p.1 p.2 hx) trivial

theorem alike_prim (h : v.Like w) (p : Prim) (t : Ty Authored) :
    Alike sameFaults Same (coercePrim p t v path) (coercePrim p t w path) := by
  cases h with
  | leaf hitems hentries hself =>
    refine alike_self fun a n hn => ?_
    unfold coercePrim at hn
    split at hn
    case h_4 k =>
      obtain ⟨_, _, _, -, hn, -⟩ := Checked.ok_bind.1 hn
      rw [← (ok_pure.1 hn).1]
      exact Double.same_ofInt k
    case h_7 =>
      split at hn
      · rw [← (ok_pure.1 hn).1]
        exact hself
      · cases hn
    case h_8 => cases hn
    all_goals
      rw [← (ok_pure.1 hn).1]
      exact hself
  | @float a b hab =>
    have hlike : (Value.float a).Like (.float b) := .float hab
    cases p with
    | float => exact alike_pure hab
    | _ => exact alike_wrongKind hlike t
  | list h => cases p <;> exact alike_wrongKind (.list h) t
  | map h => cases p <;> exact alike_wrongKind (.map h) t
  | classOf h => cases p <;> exact alike_wrongKind (.classOf h) t

theorem alike_enum (h : v.Like w) (c : Coercer) (name : String) (t : Ty Authored) :
    Alike sameFaults Same (c.coerceEnum name t v path) (c.coerceEnum name t w path) := by
  have hout : ∀ x : String, (Value.enumOf name x).Same (.enumOf name x) := by
    simp [Same, Value.same]
  cases h with
  | leaf hitems hentries hself =>
    refine alike_self fun a n hn => ?_
    unfold coerceEnum at hn
    split at hn
    · cases hn
    split at hn
    · cases hn
    split at hn
    · cases hn
    dsimp only at hn
    split at hn
    · obtain ⟨_, _, _, -, hn, -⟩ := Checked.ok_bind.1 hn
      rw [← (ok_pure.1 hn).1]
      exact hout _
    · rw [← (ok_pure.1 hn).1]
      exact hout _
  | float h =>
    unfold coerceEnum
    split
    · exact alike_fail rfl
    · exact alike_wrongKind (.float h) t
  | list h =>
    unfold coerceEnum
    split
    · exact alike_fail rfl
    · exact alike_wrongKind (.list h) t
  | map h =>
    unfold coerceEnum
    split
    · exact alike_fail rfl
    · exact alike_wrongKind (.map h) t
  | classOf h =>
    unfold coerceEnum
    split
    · exact alike_fail rfl
    · exact alike_wrongKind (.classOf h) t

end

/-! ## Entries and fields -/

/-- The entries of a map that fit, in order. -/
theorem mapM_keepOrDrop {es : List (String × Value)} {run : String × Value → Checked Value}
    (h : ∀ p ∈ es, (run p).Settles) :
    ∃ n, (es.mapM fun p => keepOrDrop .quiet p.1 (run p)).result =
      .ok (es.map fun p => (run p).value?.map fun x => (p.1, x), n) := by
  induction es with
  | nil => exact ⟨{}, rfl⟩
  | cons p es ih =>
    rw [List.forall_mem_cons] at h
    obtain ⟨n, hn⟩ := ih h.2
    have hfirst : ∃ k, (keepOrDrop .quiet p.1 (run p)).result =
        .ok ((run p).value?.map fun x => (p.1, x), k) := by
      unfold keepOrDrop value?
      rcases h.1 with ⟨⟨x, k⟩, hx⟩ | ⟨e, he⟩
      · rw [hx]
        exact ⟨k, rfl⟩
      · rw [he]
        exact ⟨_, rfl⟩
    obtain ⟨k, hk⟩ := hfirst
    rw [List.mapM_cons]
    exact ⟨_, Checked.ok_bind.2 ⟨_, _, _, hk, Checked.ok_bind.2 ⟨_, _, _, hn, rfl, rfl⟩, rfl⟩⟩

/-- Whether an entry is kept does not depend on those before it, so the order does not matter. -/
theorem alike_entries {T : Value → Value → Prop} {es fs : List (String × Value)}
    (h : Entries.Like T es fs) {run : String × Value → Checked Value}
    (hes : ∀ p ∈ es, (run p).Settles) (hfs : ∀ p ∈ fs, (run p).Settles)
    (hrun : ∀ key x y, (key, x) ∈ es → T x y →
      Alike sameFaults Same (run (key, x)) (run (key, y))) :
    Alike sameFaults Same
      (do
        let kept ← es.mapM fun p => keepOrDrop .quiet p.1 (run p)
        return .ofEntries (kept.filterMap id))
      (do
        let kept ← fs.mapM fun p => keepOrDrop .quiet p.1 (run p)
        return .ofEntries (kept.filterMap id)) := by
  have made : ∀ {gs : List (String × Value)}, (Entries.keys gs).Nodup →
      (∀ p ∈ gs, (run p).Settles) → ∃ out n, (do
        let kept ← gs.mapM fun p => keepOrDrop .quiet p.1 (run p)
        return Value.ofEntries (kept.filterMap id) : Checked Value).result = .ok (.map out, n) ∧
      (Entries.keys out).Nodup ∧
      ∀ key, Entries.find? out key =
        (Entries.find? gs key).bind fun x => (run (key, x)).value? := by
    intro gs nd hgs
    obtain ⟨n, hn⟩ := mapM_keepOrDrop hgs
    have nd' := nd.sublist (Entries.keys_filterMap_sublist (fun p => (run p).value?) gs)
    refine ⟨_, _, Checked.ok_bind.2 ⟨_, n, {}, hn, ?_, rfl⟩, nd', Entries.find?_filterMap _ nd⟩
    rw [List.filterMap_map]
    exact ok_pure.2 ⟨congrArg Value.map (Entries.ofList_of_nodup nd'), rfl⟩
  obtain ⟨out, n, hout, nd, hfind⟩ := made h.left hes
  obtain ⟨out', m, hout', nd', hfind'⟩ := made h.right hfs
  unfold Alike
  rw [hout, hout']
  refine .ok ((Value.sameTable_iff nd nd').2 ⟨nd, nd', fun key => ?_⟩) trivial
  rw [hfind, hfind']
  have hkey := h.find key
  cases hx : Entries.find? es key <;> cases hy : Entries.find? fs key <;> rw [hx, hy] at hkey <;>
    cases hkey
  · exact .none
  · next hxy => exact (hrun key _ _ (Entries.mem_of_find?_eq_some hx) hxy).value?

/-- A field that is read alike from both tables. -/
theorem alike_field {T : Value → Value → Prop} {c : Coercer} {es fs : List (String × Value)}
    (h : Entries.Like T es fs) (hT : ∀ {x y}, T x y → x.isNull = y.isNull) {f : FieldDef}
    {path : Path}
    (hrun : ∀ x y, f.name.lookup? es = some x → T x y → Alike sameFaults Same
      (c.coerce c.schema.aliasNames x f.type (path.field f.name.real))
      (c.coerce c.schema.aliasNames y f.type (path.field f.name.real))) :
    Alike sameFaults (fun p q => p.1 = q.1 ∧ p.2.Same q.2) (c.coerceField es path f)
      (c.coerceField fs path f) := by
  have hfound := Name.lookup_of_like h f.name
  unfold coerceField
  cases hx : f.name.lookup? es <;> cases hy : f.name.lookup? fs <;> rw [hx, hy] at hfound <;>
    cases hfound
  · simp only
    split
    · exact (alike_flag _ _).bind fun _ _ _ => alike_pure ⟨rfl, rfl⟩
    · exact alike_fail rfl
  · next x y hxy =>
    simp only [hT hxy]
    split
    · exact alike_fail rfl
    · exact (hrun x y hx hxy).bind fun a b hab => alike_pure ⟨rfl, hab⟩

theorem same_ofFields (name : String) {xs ys : List (String × Value)}
    (h : List.Forall₂ (fun p q => p.1 = q.1 ∧ p.2.Same q.2) xs ys) :
    (Value.ofFields name xs).Same (.ofFields name ys) := by
  have htable := Entries.Like.ofList h
  unfold Value.ofFields Same Value.same
  rw [(Value.sameTable_iff htable.left htable.right).2 htable, beq_self_eq_true]
  rfl

/-! ## Runs side by side -/

section Run

variable {s : Schema} {eval : Evaluator}

mutual

theorem alike_coerce (hc : s.Closed) (hg : s.Guarded) (pending : List String) {v w : Value}
    (h : v.Twins w) (t : Ty Authored) (path : Path) (hk : s.Knows t) (hr : s.Ready pending t) :
    Alike sameFaults Same (coerce ⟨s, eval, .quiet⟩ pending v t path)
      (coerce ⟨s, eval, .quiet⟩ pending w t path) := by
  rw [coerce, coerce]
  refine (alike_coerceForm hc hg pending h t path hk hr).bind fun x y hxy => ?_
  exact (alike_evaluate eval _).bind fun _ _ _ => alike_pure hxy
termination_by (sizeOf v, pending.length, sizeOf t, 1)

theorem alike_coerceForm (hc : s.Closed) (hg : s.Guarded) (pending : List String) {v w : Value}
    (h : v.Twins w) (t : Ty Authored) (path : Path) (hk : s.Knows t) (hr : s.Ready pending t) :
    Alike sameFaults Same (coerceForm ⟨s, eval, .quiet⟩ pending v t path)
      (coerceForm ⟨s, eval, .quiet⟩ pending w t path) := by
  have hroot : s.Resolves t := hk t t.mem_nodes
  have hlike := h.like
  match t with
  | .top a =>
    rw [coerceForm, coerceForm]
    exact alike_pure h.same
  | .prim p a =>
    rw [coerceForm, coerceForm]
    exact alike_prim hlike p _
  | .literal l a =>
    rw [coerceForm, coerceForm, l.matches_eq hlike]
    split
    · exact alike_pure h.same
    · exact alike_misfit hlike _ _
  | .enumRef name d a =>
    rw [coerceForm, coerceForm]
    exact alike_enum hlike _ name _
  | .classRef name mode dyn a =>
    obtain ⟨d, hd⟩ := Option.isSome_iff_exists.1 hroot
    rcases hlike.entries with ⟨hes, hfs⟩ | ⟨es, fs, hes, hfs, htable⟩
    · rw [coerceForm_classRef_misfit hd hes, coerceForm_classRef_misfit hd hfs]
      exact alike_wrongKind hlike _
    · rw [coerceForm_classRef hd hes, coerceForm_classRef hd hfs]
      have hfield : ∀ f ∈ d.fields, Alike sameFaults
          (fun p q : String × Value => p.1 = q.1 ∧ p.2.Same q.2)
          (coerceField ⟨s, eval, .quiet⟩ es path f) (coerceField ⟨s, eval, .quiet⟩ fs path f) := by
        intro f hf
        refine alike_field htable (fun hxy => hxy.like.isNull_eq) fun x y hx hxy => ?_
        obtain ⟨key, hkey⟩ := Name.mem_of_lookup? hx
        have hlt := Value.sizeOf_entry hes hkey
        exact alike_coerce hc hg _ hxy f.type _ (hc.fields _ _ _ hd f hf) (s.ready_aliasNames _)
      refine (alike_mapM_same hfield).bind fun xs ys hxys => ?_
      exact (alike_evaluate eval _).bind fun _ _ _ => alike_pure (same_ofFields name hxys)
  | .list item a =>
    rcases hlike.items with ⟨hvs, hws⟩ | ⟨vs, ws, hvs, hws, hitems⟩
    · rw [coerceForm_list_misfit hvs, coerceForm_list_misfit hws]
      exact alike_wrongKind hlike _
    · rw [coerceForm_list hvs, coerceForm_list hws]
      refine (alike_mapM (forall₂_zipIdx hitems 0) fun p hp q hpq => ?_).map fun xs ys hxys =>
        Value.sameItems_iff.2 hxys
      have hlt := Value.sizeOf_item hvs (List.fst_mem_of_mem_zipIdx hp)
      rw [← hpq.2]
      exact alike_coerce hc hg _ hpq.1 item _ hk.list (s.ready_aliasNames item)
  | .map key value a =>
    rcases hlike.entries with ⟨hes, hfs⟩ | ⟨es, fs, hes, hfs, htable⟩
    · rw [coerceForm_map_misfit hes, coerceForm_map_misfit hfs]
      exact alike_wrongKind hlike _
    · rw [coerceForm_map hes, coerceForm_map hfs]
      refine alike_entries htable (fun p _ => ?_) (fun p _ => ?_) fun k x y hx hxy => ?_
      · exact coerce_settles hc hg _ p.2 value _ hk.value (s.ready_aliasNames value)
      · exact coerce_settles hc hg _ p.2 value _ hk.value (s.ready_aliasNames value)
      · have hlt := Value.sizeOf_entry hes hx
        exact alike_coerce hc hg _ hxy value _ hk.value (s.ready_aliasNames value)
  | .tuple types a =>
    rcases hlike.items with ⟨hvs, hws⟩ | ⟨vs, ws, hvs, hws, hitems⟩
    · rw [coerceForm_tuple_misfit (.inl hvs), coerceForm_tuple_misfit (.inl hws)]
      exact alike_wrongKind hlike _
    · by_cases hlen : vs.length = types.length
      · rw [coerceForm_tuple hvs hlen, coerceForm_tuple hws (hitems.length_eq.symm.trans hlen)]
        have htypes : List.Forall₂ Eq types types := List.forall₂_refl types
        refine (alike_mapM (forall₂_zipIdx (forall₂_zip hitems htypes) 0)
          fun p hp q hpq => ?_).map fun xs ys hxys => Value.sameItems_iff.2 hxys
        obtain ⟨hpv, hpt⟩ := List.of_mem_zip (List.fst_mem_of_mem_zipIdx hp)
        have hlt := Value.sizeOf_item hvs hpv
        rw [← hpq.2, ← hpq.1.2]
        exact alike_coerce hc hg _ hpq.1.1 p.1.2 _ (hk.item hpt) (s.ready_aliasNames _)
      · have hlen' : ws.length ≠ types.length := fun h => hlen (hitems.length_eq.trans h)
        rw [coerceForm_tuple_misfit (.inr ⟨vs, hvs, hlen⟩),
          coerceForm_tuple_misfit (.inr ⟨ws, hws, hlen'⟩)]
        exact alike_wrongKind hlike _
  | .aliasRef name mode a =>
    obtain ⟨e, he⟩ := Option.isSome_iff_exists.1 hroot
    have hmem : name ∈ pending := hr.mem hroot
    have hlt := length_erase_lt hmem
    rw [coerceForm_aliasRef he hmem, coerceForm_aliasRef he hmem]
    exact alike_coerce hc hg _ h e path (hc.expansions name e he) (hr.expand hg he)
  | .arrow ps r a =>
    rw [coerceForm, coerceForm]
    exact alike_wrongKind hlike _
  | .union ms null a =>
    cases hnull : v.isNull && null.isSome with
    | true =>
      rw [coerceForm, coerceForm, ← hlike.isNull_eq, hnull]
      exact alike_pure h.same
    | false =>
      rw [coerceForm_union hnull, coerceForm_union (hlike.isNull_eq ▸ hnull)]
      refine alike_firstFit (alike_wrongKind hlike _) ?_ .none
      rw [List.forall₂_map_left_iff, List.forall₂_map_right_iff, List.forall₂_same]
      intro m hm
      have hmem := List.fst_mem_of_mem_zipIdx hm
      have hlt := List.sizeOf_lt_of_mem hmem
      exact alike_coerceMember (alike_coerce hc hg pending h m.1 path (hk.member hmem)
        (hr.member hmem)) _
termination_by (sizeOf v, pending.length, sizeOf t, 0)
decreasing_by
  · exact Prod.Lex.left _ _ hlt
  · exact Prod.Lex.left _ _ hlt
  · exact Prod.Lex.left _ _ hlt
  · exact Prod.Lex.left _ _ hlt
  · exact Prod.Lex.right _ (Prod.Lex.left _ _ hlt)
  · apply Prod.Lex.right
    apply Prod.Lex.right
    apply Prod.Lex.left
    simp only [Ty.union.sizeOf_spec]
    omega

end

end Run

end Coercer

/-! ## Scores -/

namespace Schema

open Value (Same Twins Like)

variable {s : Schema} {v w : Value}

/-- A class counts the keys of a value, in whatever order. -/
theorem ofClass_eq {R : Value → Value → Prop} {es fs : List (String × Value)}
    (h : Entries.Like R es fs) (d : ClassDef) : Score.ofClass d es = Score.ofClass d fs := by
  have hkeys : ∀ gs : List (String × Value), Score.ofClass d gs =
      (Entries.keys gs).countP fun key => d.fields.any fun f => f.name.answersTo key := fun gs => by
    unfold Entries.keys
    rw [List.countP_map]
    rfl
  rw [hkeys, hkeys]
  exact h.keys_perm.countP_eq _

theorem scoreForm_eq (h : v.Like w) (t : Ty Authored) : s.scoreForm v t = s.scoreForm w t := by
  cases t with
  | classRef name mode dyn a =>
    simp only [scoreForm]
    rcases h.entries with ⟨hes, hfs⟩ | ⟨es, fs, hes, hfs, htable⟩
    · rw [hes, hfs]
    · rw [hes, hfs]
      cases s.findClass? name mode with
      | none => rfl
      | some d => exact ofClass_eq htable d
  | enumRef name d a =>
    simp only [scoreForm, Score.ofEnum, h.variantName?_eq]
  | literal l a =>
    simp only [scoreForm, l.matches_eq h]
  | prim p a =>
    show Score.ofPrim p v = Score.ofPrim p w
    cases h with
    | leaf => rfl
    | _ => cases p <;> rfl
  | _ => cases h <;> rfl

theorem scoreAmong_eq (h : v.Like w) (pending : List String) (t : Ty Authored) :
    s.scoreAmong pending v t = s.scoreAmong pending w t := by
  match t with
  | .union ms null a =>
    rw [scoreAmong, scoreAmong]
    refine congrArg (List.foldl max 0) (List.map_congr_left fun m hm => ?_)
    have hlt := List.sizeOf_lt_of_mem m.property
    exact scoreAmong_eq h pending m.val
  | .aliasRef name mode a =>
    rw [scoreAmong, scoreAmong]
    split
    · rfl
    · rfl
    · split
      · next hmem =>
        have hlt := length_erase_lt hmem
        exact scoreAmong_eq h _ _
      · rfl
  | .top a | .prim p a | .enumRef n d a | .literal l a | .classRef n m d a | .list i a
  | .map k x a | .tuple is a | .arrow ps r a =>
    rw [scoreAmong, scoreAmong, scoreForm_eq h] <;> simp
termination_by (pending.length, sizeOf t)
decreasing_by
  · apply Prod.Lex.right
    simp only [Ty.union.sizeOf_spec]
    omega
  · exact Prod.Lex.left _ _ hlt

theorem resolveUnion_eq (h : v.Like w) (ms : List (Ty Authored)) (null : Option Authored) :
    s.resolveUnion v ms null = s.resolveUnion w ms null := by
  have hscore : s.score v = s.score w := funext (scoreAmong_eq h s.aliasNames)
  unfold resolveUnion choose leaders topScore
  rw [h.isNull_eq, hscore]

end Schema

/-! ## Top theorem -/

namespace Coercer

open Value (Same Twins)

variable {s : Schema}

/-- Coercion and union resolution respect equality of values. -/
theorem run_same (hc : s.Closed) (hg : s.Guarded) {v w : Value} (hv : v.Keyed) (hw : w.Keyed)
    (h : v.same w = true) {t : Ty Authored} (hk : s.Knows t) (eval : Evaluator) (path : Path) :
    ((∃ x y n m, (run ⟨s, eval, .quiet⟩ v t path).result = .ok (x, n) ∧
        (run ⟨s, eval, .quiet⟩ w t path).result = .ok (y, m) ∧ x.same y = true) ∨
      ∃ e, (run ⟨s, eval, .quiet⟩ v t path).result = .error (.convert e) ∧
        (run ⟨s, eval, .quiet⟩ w t path).result = .error (.convert e)) ∧
    ∀ ms null, s.resolveUnion v ms null = s.resolveUnion w ms null := by
  have htwins : v.Twins w := ⟨hv, hw, h⟩
  refine ⟨?_, Schema.resolveUnion_eq htwins.like⟩
  have halike : Alike sameFaults Same (run ⟨s, eval, .quiet⟩ v t path)
      (run ⟨s, eval, .quiet⟩ w t path) :=
    alike_coerce hc hg s.aliasNames htwins t path hk (s.ready_aliasNames t)
  have hsettles : (run ⟨s, eval, .quiet⟩ v t path).Settles := settles_run hc hg v hk path
  rcases hsettles with ⟨⟨x, n⟩, hx⟩ | ⟨e, he⟩
  · obtain ⟨y, m, hy, hxy, -⟩ := halike.result_ok hx
    exact .inl ⟨x, y, n, m, hx, hy, hxy⟩
  · obtain ⟨e', he', heq⟩ := halike.misfit he
    rw [← heq] at he'
    exact .inr ⟨e, he, he'⟩

/-- Accounts with an amount and the accounts that they consist of. -/
def accounts : Schema where
  target := .union [.aliasRef "Accounts" .complete {}, .classRef "Account" .complete false {}] none {}
  enums := []
  classes := [
    { name := ⟨"Account", none⟩
      fields := [⟨⟨"amount", none⟩, .prim .float {}, none, false⟩,
        ⟨⟨"parts", some "consists_of"⟩, .aliasRef "Accounts" .complete {}, none, false⟩]
      constraints := [⟨.check, none, "this.amount > 0"⟩] }]
  recursiveClasses := ["Account"]
  aliases := [("Accounts", .list (.classRef "Account" .complete false {}) {})]

theorem guarded_accounts : accounts.Guarded := by
  intro name hcycle
  obtain ⟨b, ⟨e, he, hopens⟩, -⟩ := Relation.TransGen.head'_iff.1 hcycle
  have hmem := Entries.mem_of_find?_eq_some he
  simp only [accounts, List.mem_singleton, Prod.mk.injEq] at hmem
  rw [hmem.2] at hopens
  cases hopens

/-- An empty account, and the same one with its entries turned around and a negative zero. -/
def emptied : Value := .map [("amount", .float .zero), ("consists_of", .list [])]

def emptiedAgain : Value :=
  .map [("consists_of", .list []), ("amount", .float ⟨0x8000000000000000⟩)]

theorem keyed_emptied : emptied.Keyed ∧ emptiedAgain.Keyed := by
  have hlist : (Value.list []).Keyed := .list fun _ h => by simp at h
  have hfloat : ∀ d, (Value.float d).Keyed := fun _ => .leaf rfl rfl
  refine ⟨.map (by decide) fun p hp => ?_, .map (by decide) fun p hp => ?_⟩ <;>
    simp only [List.mem_cons, List.not_mem_nil, or_false] at hp <;> rcases hp with rfl | rfl
  · exact hfloat _
  · exact hlist
  · exact hlist
  · exact hfloat _

theorem run_same_accounts : accounts.Closed ∧ accounts.Guarded ∧
    accounts.Knows accounts.target ∧ emptied.Keyed ∧ emptiedAgain.Keyed ∧
    emptied.same emptiedAgain = true ∧
    ((∃ x y n m, (run ⟨accounts, fun _ _ => .ok false, .quiet⟩ emptied accounts.target
          .root).result = .ok (x, n) ∧
        (run ⟨accounts, fun _ _ => .ok false, .quiet⟩ emptiedAgain accounts.target
          .root).result = .ok (y, m) ∧ x.same y = true) ∨
      ∃ e, (run ⟨accounts, fun _ _ => .ok false, .quiet⟩ emptied accounts.target
          .root).result = .error (.convert e) ∧
        (run ⟨accounts, fun _ _ => .ok false, .quiet⟩ emptiedAgain accounts.target
          .root).result = .error (.convert e)) ∧
    ∀ ms null, accounts.resolveUnion emptied ms null = accounts.resolveUnion emptiedAgain ms null := by
  have hc : accounts.Closed := Schema.closed_of_offersAll (by decide) (by decide)
  have hk : accounts.Knows accounts.target := Schema.knows_of_offersAll (by decide)
  have hsame : emptied.same emptiedAgain = true := by decide
  obtain ⟨hv, hw⟩ := keyed_emptied
  exact ⟨hc, guarded_accounts, hk, hv, hw, hsame,
    run_same hc guarded_accounts hv hw hsame hk _ .root⟩

end Coercer

end ShapeSchema
