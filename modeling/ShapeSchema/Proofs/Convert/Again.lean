import ShapeSchema.Proofs.Convert.Rests
import ShapeSchema.Proofs.Convert.Streamed

/-!
# Coercing again

What coercion answers is normal (`Coercer.normal_of_coerce`), so that coercing it again always
succeeds. It need not give the same value again: a union hands a value to the first member that
admits it, and what coercion has made of a value for one member may fit an earlier member that
refused the value itself. Where the members of each union tell their values apart, nothing moves
(`Coercer.run_again`).
-/

namespace ShapeSchema

/-! ## Discerning unions -/

namespace Schema

/-- Where a member of a union admits a value that rests at a later one, it leaves it as it is. -/
def Tells (s : Schema) : Ty Authored → Prop
  | .union ms _ _ => ms.Pairwise fun u m => ∀ v, s.Rests v m → s.Admits v u → s.Rests v u
  | _ => True

/-- Every union in a type tells the values of its members apart. -/
def Discerns (s : Schema) (t : Ty Authored) : Prop := ∀ u ∈ t.nodes, s.Tells u

/-- Every union in a field of a class or in the expansion of an alias tells the values of its
members apart. -/
structure Discerning (s : Schema) : Prop where
  fields : ∀ name mode d, s.findClass? name mode = some d → ∀ f ∈ d.fields, s.Discerns f.type
  expansions : ∀ name e, s.expand? name = some e → s.Discerns e

variable {s : Schema} {v : Value} {t : Ty Authored}

theorem Discerns.child (h : s.Discerns t) {u : Ty Authored} (hu : u ∈ t.children) :
    s.Discerns u := (Ty.forall_mem_nodes_iff.1 h).2 u hu

theorem discerns_of_children (h : s.Tells t) (hc : ∀ u ∈ t.children, s.Discerns u) :
    s.Discerns t := Ty.forall_mem_nodes_iff.2 ⟨h, hc⟩

/-- Is a node a union of several members? -/
def chooses : Ty Authored → Bool
  | .union (_ :: _ :: _) _ _ => true
  | _ => false

/-- There is nothing to tell apart where no union has several members. -/
theorem discerns_of_not_chooses (h : ∀ u ∈ t.nodes, chooses u = false) : s.Discerns t := by
  intro u hu
  have hu := h u hu
  cases u with
  | union ms null a =>
    match ms with
    | [] => exact .nil
    | [_] => exact List.pairwise_singleton _ _
    | _ :: _ :: _ => cases hu
  | _ => trivial

/-- A value that rests at one of some members rests at the first that admits it. -/
theorem chosen_of_pairwise {ms : List (Ty Authored)}
    (h : ms.Pairwise fun u m => ∀ v, s.Rests v m → s.Admits v u → s.Rests v u) {m : Ty Authored}
    (hm : m ∈ ms) (hv : s.Rests v m) :
    Chosen (fun u => ¬ s.Admits v u) (fun u => s.Rests v u) ms := by
  induction ms with
  | nil => cases hm
  | cons u ms ih =>
    rw [List.pairwise_cons] at h
    rw [chosen_cons]
    rcases List.mem_cons.1 hm with rfl | hm
    · exact .inl hv
    · by_cases hu : s.Admits v u
      · exact .inl (h.1 m hm v hv hu)
      · exact .inr ⟨hu, ih h.2 hm⟩

/-- Where unions are discerning, normal values rest. -/
theorem Normal.rests (hd : s.Discerning)
    (h : s.Normal (fun _ _ => True) v t) (ht : s.Discerns t) : s.Rests v t := by
  induction h with
  | top => exact .top
  | prim h => exact .prim h
  | literal h => exact .literal h
  | enumRef he hx hreal => exact .enumRef he hx hreal
  | classRef hfound hnames _ ih =>
    exact .classRef hfound hnames fun f hf x hx => ih f hf x hx (hd.fields _ _ _ hfound f hf)
  | list _ ih => exact .list fun x hx => ih x hx (ht.child List.mem_cons_self)
  | map nd _ ih =>
    exact .map nd fun p hp => ih p hp (ht.child (List.mem_cons_of_mem _ List.mem_cons_self))
  | tuple hlen _ ih => exact .tuple hlen fun p hp => ih p hp (ht.child (List.of_mem_zip hp).2)
  | aliasRef he _ ih => exact .aliasRef he (ih (hd.expansions _ _ he))
  | unionNull => exact .unionNull
  | @unionMember before after null a v m _ _ ih =>
    have hm : m ∈ before ++ m :: after := List.mem_append_right _ List.mem_cons_self
    have hv : s.Rests v m := ih (ht.child (List.mem_append_left _ hm))
    have htells := ht _ (Ty.mem_nodes (.union (before ++ m :: after) null a))
    obtain ⟨before', m', after', hms, hbefore, hv'⟩ := chosen_of_pairwise htells hm hv
    rw [hms]
    exact .unionMember hbefore hv'

/-- Null is normal at the types whose form it has. -/
theorem normal_null {v : Value} {t : Ty Authored} (h : Conforms s (fun _ _ => True) v t)
    (hv : v = .null) : s.Normal (fun _ _ => True) v t := by
  match h with
  | .top _ => exact .top
  | .prim hp _ => exact .prim hp
  | .aliasRef he h _ => exact .aliasRef he (normal_null h hv)
  | .unionNull _ => exact .unionNull
  | .unionMember hm h _ =>
    have hnormal := normal_null h hv
    obtain ⟨before, after, rfl⟩ := List.append_of_mem hm
    exact .unionMember (fun _ _ => trivial) hnormal
  | .literal hl _ => cases hl <;> cases hv
  | .enumRef _ _ _ | .classRef _ _ _ _ | .list _ _ | .map _ _ | .tuple _ _ => cases hv

end Schema

/-! ## What coercion answers -/

namespace Coercer

open Checked

section
variable {s : Schema} {eval : Evaluator}

theorem normal_of_coerceForm (hs : s.DistinctFields) (pending : List String) (v : Value)
    (t : Ty Authored) (path : Path) (w : Value)
    (h : (coerceForm ⟨s, eval, .quiet⟩ pending v t path).Makes w) :
    s.Normal (fun _ _ => True) w t := by
  match t with
  | .top a => exact .top
  | .prim p a =>
    rw [coerceForm] at h
    obtain ⟨n, h, -⟩ := h
    exact .prim (holds_of_coercePrim h)
  | .literal l a =>
    obtain ⟨hm, rfl⟩ := answers_literal h
    exact .literal hm
  | .enumRef name d a =>
    obtain ⟨e, x, he, hx, rfl⟩ := answers_enumRef h
    obtain ⟨y, hy, hreal⟩ := findValue?_of_mem hx
    exact .enumRef he hy hreal
  | .classRef name mode dyn a =>
    obtain ⟨d, es, fs, hd, hes, hfields, -, rfl⟩ := answers_classRef splits_any h
    have hnames : Entries.keys fs = d.fields.map (·.name.real) :=
      map_eq_of_forall₂ (hfields.imp fun _ _ hf => hf.name)
    have nd : (Entries.keys fs).Nodup := hnames ▸ hs name mode d hd
    rw [Value.ofFields, Entries.ofList_of_nodup nd]
    refine .classRef hd hnames fun f hf x hx => ?_
    cases of_forall₂_names (fun _ _ hr => hr.name) hfields nd hf hx with
    | null _ hnull => exact Schema.normal_null (Schema.formed_of_acceptsNullAmong hnull) rfl
    | found hmem hx =>
      have hlt := Value.sizeOf_entry hes hmem
      exact normal_of_coerceForm hs _ _ f.type _ x (makes_coerce_iff.1 hx)
  | .list item a =>
    obtain ⟨items, ws, hitems, rfl, hws⟩ := answers_list splits_any h
    refine .list fun w hw => ?_
    obtain ⟨x, hx, here, hw⟩ := hws w hw
    have hlt := Value.sizeOf_item hitems hx
    exact normal_of_coerceForm hs _ x item here w (makes_coerce_iff.1 hw)
  | .map key value a =>
    obtain ⟨es, kept, hes, rfl, hkept⟩ := answers_map splits_any h
    refine .map (Entries.nodup_ofList kept) fun p hp => ?_
    obtain ⟨q, hq, -, hw⟩ := hkept p (Entries.mem_of_mem_ofList hp)
    have hlt := Value.sizeOf_entry hes hq
    exact normal_of_coerceForm hs _ q.2 value _ p.2 (makes_coerce_iff.1 hw)
  | .tuple types a =>
    obtain ⟨items, ws, hitems, rfl, hws⟩ := answers_tuple splits_any h
    refine .tuple hws.length_eq fun p hp => ?_
    obtain ⟨x, hx, here, hw⟩ := List.forall₂_zip hws hp
    have hlt := Value.sizeOf_item hitems hx
    exact normal_of_coerceForm hs _ x p.2 here p.1 (makes_coerce_iff.1 hw)
  | .aliasRef name mode a =>
    obtain ⟨e, he, hmem, hw⟩ := answers_aliasRef h
    have hlt := length_erase_lt hmem
    exact .aliasRef he (normal_of_coerceForm hs _ v e path _ (makes_coerce_iff.1 hw))
  | .arrow ps r a =>
    rw [coerceForm] at h
    exact absurd h not_makes_fail
  | .union ms null a =>
    rcases answers_union splits_any h with ⟨rfl, n, rfl⟩ | ⟨m, hm, hw⟩
    · exact .unionNull
    · have hlt := List.sizeOf_lt_of_mem hm
      have hnormal := normal_of_coerceForm hs pending v m path _ (makes_coerce_iff.1 hw)
      obtain ⟨before, after, rfl⟩ := List.append_of_mem hm
      exact .unionMember (fun _ _ => trivial) hnormal
termination_by (sizeOf v, pending.length, sizeOf t)
decreasing_by
  · exact Prod.Lex.left _ _ hlt
  · exact Prod.Lex.left _ _ hlt
  · exact Prod.Lex.left _ _ hlt
  · exact Prod.Lex.left _ _ hlt
  · exact Prod.Lex.right _ (Prod.Lex.left _ _ hlt)
  · apply Prod.Lex.right
    apply Prod.Lex.right
    simp only [Ty.union.sizeOf_spec]
    omega

/-- What coercion answers is normal. -/
theorem normal_of_coerce (hs : s.DistinctFields) {pending : List String} {v w : Value}
    {t : Ty Authored} {path : Path} (h : (coerce ⟨s, eval, .quiet⟩ pending v t path).Makes w) :
    s.Normal (fun _ _ => True) w t :=
  normal_of_coerceForm hs pending v t path w (makes_coerce_iff.1 h)

end

end Coercer

/-! ## Threads -/

theorem discerning_thread : thread.Discerning where
  fields name mode d h f hf := by
    have fields : ∀ d ∈ thread.classes, (∀ f ∈ d.fields, ∀ u ∈ f.type.nodes,
        Schema.chooses u = false) ∧ ∀ f ∈ d.streamed.fields, ∀ u ∈ f.type.nodes,
          Schema.chooses u = false := by decide
    refine Schema.discerns_of_not_chooses ?_
    rcases Schema.mem_of_findClass? h with hd | ⟨c, hc, rfl⟩
    · exact (fields d hd).1 f hf
    · exact (fields c hc).2 f hf
  expansions name e h := by
    have fields : ∀ p ∈ thread.aliases, ∀ u ∈ p.2.nodes, Schema.chooses u = false := by decide
    exact Schema.discerns_of_not_chooses (fields _ (Entries.mem_of_find?_eq_some h))

theorem distinctFields_thread : thread.DistinctFields :=
  Schema.distinctFields_of_classes (by decide)

/-- A thread is null or a list, neither of which stands for an object. -/
theorem not_admits_thread {v : Value} (h : thread.Admits v (.aliasRef "Thread" .complete {}))
    {name : String} {mode : Mode} {dyn : Bool} {a : Authored} :
    ¬ thread.Admits v (.classRef name mode dyn a) := by
  rintro ⟨⟩
  rename_i hes _
  rw [Schema.admits_aliasRef_iff rfl, Schema.admits_union_iff] at h
  rcases h with h | ⟨m, hm, h⟩
  · cases v with
    | null => cases hes
    | _ => cases h
  · rw [List.mem_singleton.1 hm] at h
    cases h with
    | list hitems =>
      cases v with
      | list => cases hes
      | _ => cases hitems

/-- A note has no title. -/
theorem not_admits_note {v : Value} (h : thread.Rests v (.classRef "Note" .complete false {})) :
    ¬ thread.Admits v (.classRef "Post" .complete false {}) := by
  intro hpost
  cases h with
  | @classRef _ _ _ _ d fs hd hnames _ =>
  cases hd
  have htitle := (Schema.admits_classRef_iff rfl rfl).1 hpost _ List.mem_cons_self
  have hnone : Name.lookup? ⟨"title", none⟩ fs = none := by
    unfold Name.lookup?
    rw [Entries.find?_eq_none.2]
    · rfl
    · rw [hnames]
      decide
  rw [hnone] at htitle
  cases htitle with
  | prim h => cases h

/-- Threads, posts and notes have nothing in common. -/
theorem discerns_thread : thread.Discerns thread.target := by
  refine Schema.discerns_of_children (List.pairwise_pair.2 fun v hv hthread => ?_) fun u hu => ?_
  · have hadmits := hv.admits distinctFields_thread
    rcases Schema.admits_union_iff.1 hadmits with h | ⟨m, hm, hmember⟩
    · simp at h
    · simp only [List.mem_cons, List.not_mem_nil, or_false] at hm
      rcases hm with rfl | rfl <;> exact absurd hmember (not_admits_thread hthread)
  · have leaves : ∀ u ∈ ([.aliasRef "Thread" .complete {}, .classRef "Post" .complete false {},
        .classRef "Note" .complete false {}] : List (Ty Authored)), thread.Discerns u :=
      fun u hu => Schema.discerns_of_not_chooses (by revert u; decide)
    have hchildren : thread.target.children = [.aliasRef "Thread" .complete {},
      .union [.classRef "Post" .complete false {}, .classRef "Note" .complete false {}] none {}] :=
        rfl
    rw [hchildren] at hu
    simp only [List.mem_cons, List.not_mem_nil, or_false] at hu
    rcases hu with rfl | rfl
    · exact leaves _ List.mem_cons_self
    · refine Schema.discerns_of_children (List.pairwise_pair.2 fun v hv hpost => ?_) fun u hu =>
        leaves u (List.mem_cons_of_mem _ hu)
      exact absurd hpost (not_admits_note hv)

/-! ## Top theorem -/

namespace Coercer

open Checked

/-- Coercing an answer again succeeds, and gives the answer itself again exactly if it rests at the
type. Where unions are discerning, it always does. -/
theorem run_again {s : Schema} (hc : s.Closed) (hg : s.Guarded) (hs : s.DistinctFields)
    {t : Ty Authored} (hk : s.Knows t) {eval : Evaluator} {v w : Value} {path : Path}
    (h : (run ⟨s, eval, .quiet⟩ v t path).value? = some w) (here : Path) :
    (∃ x, (run ⟨s, eval, .quiet⟩ w t here).value? = some x) ∧
      ((run ⟨s, eval, .quiet⟩ w t here).value? = some w ↔ s.Rests w t) ∧
      (s.Discerning → s.Discerns t → (run ⟨s, eval, .quiet⟩ w t here).value? = some w) := by
  have hnormal : s.Normal (fun _ _ => True) w t := normal_of_coerce hs (value?_eq_some_iff.1 h)
  have hsame : (run ⟨s, eval, .quiet⟩ w t here).value? = some w ↔ s.Rests w t :=
    value?_eq_some_iff.trans (makes_self_iff hc hg hs _ w t here hk (s.ready_aliasNames t))
  refine ⟨?_, hsame, fun hd ht => hsame.2 (hnormal.rests hd ht)⟩
  have hagain : (run ⟨s, eval, .quiet⟩ w t here).Succeeds :=
    (succeeds_run_iff hc hg hk w here).2 (hnormal.admits hs)
  obtain ⟨x, hx⟩ := succeeds_iff_makes.1 hagain
  exact ⟨x, value?_eq_some_iff.2 hx⟩

def allPass : Evaluator := fun _ _ => .ok true

theorem run_again_post : thread.Closed ∧ thread.Guarded ∧ thread.DistinctFields ∧
    thread.Knows thread.target ∧ thread.Discerning ∧ thread.Discerns thread.target ∧ ∃ w,
      (run ⟨thread, allPass, .quiet⟩ post thread.target .root).value? = some w ∧
      (run ⟨thread, allPass, .quiet⟩ w thread.target .root).value? = some w := by
  have hc : thread.Closed := Schema.closed_of_offersAll (by decide) (by decide)
  have hs : thread.DistinctFields := distinctFields_thread
  have hk : thread.Knows thread.target := Schema.knows_of_offersAll (by decide)
  have hrun : (run ⟨thread, allPass, .quiet⟩ post thread.target .root).Succeeds :=
    (succeeds_run_iff hc guarded_thread hk post .root).2 admits_post
  obtain ⟨w, hmakes⟩ := succeeds_iff_makes.1 hrun
  have hw := value?_eq_some_iff.2 hmakes
  exact ⟨hc, guarded_thread, hs, hk, discerning_thread, discerns_thread, w, hw,
    (run_again hc guarded_thread hs hk hw .root).2.2 discerning_thread discerns_thread⟩

/-- A step has a stage, a task has a status. The only status bears the name of the only stage, but
it is shown by another word. -/
def tasks : Schema where
  target := .union [.classRef "Step" .complete false {}, .classRef "Task" .complete false {}] none
    {}
  enums := [{ name := ⟨"Stage", none⟩, values := [⟨⟨"DONE", none⟩, none⟩] },
    { name := ⟨"Status", none⟩, values := [⟨⟨"DONE", some "finished"⟩, none⟩] }]
  classes := [
    { name := ⟨"Step", none⟩
      fields := [⟨⟨"state", none⟩, .enumRef "Stage" false {}, none, false⟩] },
    { name := ⟨"Task", none⟩
      fields := [⟨⟨"state", none⟩, .enumRef "Status" false {}, none, false⟩,
        ⟨⟨"note", none⟩, .prim .string {}, none, false⟩] }]
  recursiveClasses := []
  aliases := []

/-- A class with two fields of one name, each shown by another. -/
def twins : Schema where
  target := .classRef "Twin" .complete false {}
  enums := []
  classes := [{ name := ⟨"Twin", none⟩
                fields := [⟨⟨"it", some "count"⟩, .prim .int {}, none, false⟩,
                  ⟨⟨"it", some "label"⟩, .prim .string {}, none, false⟩] }]
  recursiveClasses := []
  aliases := []

/-- The tasks with an alias of itself below a step, where a task may have anything. -/
def loops : Schema where
  target := tasks.target
  enums := tasks.enums
  classes := [
    { name := ⟨"Step", none⟩
      fields := [⟨⟨"state", none⟩, .enumRef "Stage" false {}, none, false⟩,
        ⟨⟨"note", none⟩, .aliasRef "Loop" .complete {}, none, false⟩] },
    { name := ⟨"Task", none⟩
      fields := [⟨⟨"state", none⟩, .enumRef "Status" false {}, none, false⟩,
        ⟨⟨"note", none⟩, .top {}, none, false⟩] }]
  recursiveClasses := []
  aliases := [("Loop", .aliasRef "Loop" .complete {})]

/-- A finished task, as it is before coercion. -/
def finished : Value := .map [("state", .text "finished"), ("note", .text "x")]

def task : Value := .classOf "Task" [("state", .enumOf "Status" "DONE"), ("note", .text "x")]

/-- A finished task is no step before coercion, but it is one afterwards. Twins are refused once
they have become one field, and so is the task where a step leads into a cycle of aliases. -/
theorem run_again_differs :
    (tasks.Closed ∧ (run ⟨tasks, allPass, .quiet⟩ finished tasks.target {}).value? = some task ∧
      (run ⟨tasks, allPass, .quiet⟩ task tasks.target {}).value? =
        some (.classOf "Step" [("state", .enumOf "Stage" "DONE")])) ∧
    (twins.Closed ∧ (run ⟨twins, allPass, .quiet⟩ (.map [("count", .int 1), ("label", .text "a")])
        twins.target {}).value? = some (.classOf "Twin" [("it", .text "a")]) ∧
      (run ⟨twins, allPass, .quiet⟩ (.classOf "Twin" [("it", .text "a")]) twins.target
        {}).value? = none) ∧
    loops.Closed ∧ (run ⟨loops, allPass, .quiet⟩ finished loops.target {}).value? = some task ∧
      (run ⟨loops, allPass, .quiet⟩ task loops.target {}).value? = none := by
  refine ⟨⟨Schema.closed_of_offersAll (by decide) (by decide), ?_, ?_⟩,
    ⟨Schema.closed_of_offersAll (by decide) (by decide), ?_, ?_⟩,
    Schema.closed_of_offersAll (by decide) (by decide), ?_, ?_⟩
  all_goals
    simp [run, tasks, twins, loops, finished, task, coerce, coerceForm, coerceEnum, coercePrim,
      Schema.findClass?, Schema.registered?, Schema.findEnum?, Schema.expand?, Schema.aliasNames,
      EnumDef.findValue?, Value.entries?, Value.variantName?, Name.lookup?, Entries.find?,
      Schema.acceptsNull, Schema.acceptsNullAmong, firstFit]
    rfl

end Coercer

end ShapeSchema
