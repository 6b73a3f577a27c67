import Mathlib.Data.List.Forall2
import Mathlib.Data.List.Nodup

/-!
# Related lists

Two lists are related item by item by `List.Forall₂`. What is wanted of every item of a list can be
chosen for all of them at once (`exists_related`, `exists_forall₂`), also if it depends on the
item's position (`exists_zipIdx`, `exists_zipIdx_between`). An item with a key of its own is what a
search for the key finds (`find?_of_nodup_map`), and items with keys of their own have one order
(`eq_of_perm_of_key`).
-/

namespace ShapeSchema

theorem mem_elim_nil {α β : Type} {o : Option α} {f : α → List β} {y : β} :
    y ∈ o.elim [] f ↔ ∃ x, o = some x ∧ y ∈ f x := by
  cases o <;> simp

theorem find?_of_unique {α : Type} {p : α → Bool} {xs : List α} {x : α} (hx : x ∈ xs)
    (hp : p x = true) (h : ∀ y ∈ xs, p y = true → y = x) : xs.find? p = some x := by
  cases hf : xs.find? p with
  | none => exact absurd hp (List.find?_eq_none.1 hf x hx)
  | some y => rw [h y (List.mem_of_find?_eq_some hf) (List.find?_some hf)]

theorem find?_of_nodup_map {α : Type} {key : α → String} {xs : List α} (nd : (xs.map key).Nodup)
    {x : α} (hx : x ∈ xs) : xs.find? (fun y => key y == key x) = some x :=
  find?_of_unique hx (beq_self_eq_true _) fun _ hy h =>
    List.inj_on_of_nodup_map nd hy hx (eq_of_beq h)

/-- Two lists of the same items are one list if both are in order and the order leaves open only the
order of items of one key. -/
theorem eq_of_perm_of_key {α κ : Type} (key : α → κ) {le : α → α → Prop}
    (hkey : ∀ a b, le a b → le b a → key a = key b) {xs ys : List α} (h : xs.Perm ys)
    (nd : (xs.map key).Nodup) (hxs : xs.Pairwise le) (hys : ys.Pairwise le) : xs = ys := by
  refine h.eq_of_pairwise (fun a b ha hb hab hba => ?_) hxs hys
  exact List.inj_on_of_nodup_map nd ha (h.mem_iff.2 hb) (hkey a b hab hba)

theorem exists_of_forall₂ {α β : Type} {R : α → β → Prop} {xs : List α} {ys : List β}
    (h : List.Forall₂ R xs ys) {y : β} (hy : y ∈ ys) : ∃ x ∈ xs, R x y := by
  induction h with
  | nil => simp at hy
  | cons hxy _ ih =>
    rcases List.mem_cons.1 hy with rfl | hy
    · exact ⟨_, List.mem_cons_self, hxy⟩
    · obtain ⟨x, hx, h⟩ := ih hy
      exact ⟨x, List.mem_cons_of_mem _ hx, h⟩

theorem forall₂_imp_mem {α β : Type} {R S : α → β → Prop} {xs : List α} {ys : List β}
    (h : List.Forall₂ R xs ys) (hRS : ∀ x ∈ xs, ∀ y, R x y → S x y) : List.Forall₂ S xs ys := by
  induction h with
  | nil => exact .nil
  | cons hxy _ ih =>
    rw [List.forall_mem_cons] at hRS
    exact .cons (hRS.1 _ hxy) (ih hRS.2)

theorem forall₂_join {α β γ : Type} {R : α → β → Prop} {S : α → γ → Prop} {xs : List α}
    {ys : List β} {zs : List γ} (h : List.Forall₂ R xs ys) (k : List.Forall₂ S xs zs) :
    List.Forall₂ (fun y z => ∃ x ∈ xs, R x y ∧ S x z) ys zs := by
  induction h generalizing zs with
  | nil =>
    cases k
    exact .nil
  | cons hxy _ ih =>
    cases k with
    | cons hxz hrest =>
      refine .cons ⟨_, List.mem_cons_self, hxy, hxz⟩ ((ih hrest).imp ?_)
      rintro y z ⟨x, hx, h⟩
      exact ⟨x, List.mem_cons_of_mem _ hx, h⟩

theorem map_eq_of_forall₂ {α β γ : Type} {f : α → γ} {k : β → γ} {xs : List α} {ys : List β}
    (h : List.Forall₂ (fun x y => k y = f x) xs ys) : ys.map k = xs.map f := by
  induction h with
  | nil => rfl
  | cons hxy _ ih => rw [List.map_cons, List.map_cons, hxy, ih]

theorem pairwise_of_forall₂ {α β : Type} {R : α → β → Prop} {P : α → α → Prop} {Q : β → β → Prop}
    {xs : List α} {ys : List β} (h : List.Forall₂ R xs ys) (hxs : xs.Pairwise P)
    (hq : ∀ {x x' y y'}, R x y → R x' y' → P x x' → Q y y') : ys.Pairwise Q := by
  induction h with
  | nil => exact .nil
  | cons hxy hrest ih =>
    obtain ⟨hfirst, hothers⟩ := List.pairwise_cons.1 hxs
    refine List.pairwise_cons.2 ⟨fun y' hy' => ?_, ih hothers⟩
    obtain ⟨x', hx', hr⟩ := exists_of_forall₂ hrest hy'
    exact hq hxy hr (hfirst x' hx')

theorem forall₂_zipIdx {α β : Type} {R : α → β → Prop} {xs : List α} {ys : List β}
    (h : List.Forall₂ R xs ys) (start : Nat) :
    List.Forall₂ (fun p q => R p.1 q.1 ∧ p.2 = q.2) (xs.zipIdx start) (ys.zipIdx start) := by
  induction h generalizing start with
  | nil => exact .nil
  | cons hxy _ ih => exact .cons ⟨hxy, rfl⟩ (ih (start + 1))

theorem forall₂_zip {α β γ δ : Type} {R : α → β → Prop} {S : γ → δ → Prop} {xs : List α}
    {ys : List β} {zs : List γ} {ws : List δ} (h : List.Forall₂ R xs ys)
    (k : List.Forall₂ S zs ws) :
    List.Forall₂ (fun p q => R p.1 q.1 ∧ S p.2 q.2) (xs.zip zs) (ys.zip ws) := by
  induction h generalizing zs ws with
  | nil => exact .nil
  | cons hxy _ ih =>
    cases k with
    | nil => exact .nil
    | cons hzw hrest => exact .cons ⟨hxy, hzw⟩ (ih hrest)

theorem rel_imp {α β : Type} {R S : α → β → Prop} {x : Option α} {y : Option β}
    (h : Option.Rel R x y) (hRS : ∀ a b, R a b → S a b) : Option.Rel S x y := by
  cases h with
  | none => exact .none
  | some hab => exact .some (hRS _ _ hab)

theorem rel_map {α β γ δ : Type} {R : α → β → Prop} {S : γ → δ → Prop} {f : α → γ} {g : β → δ}
    {x : Option α} {y : Option β} (h : Option.Rel R x y) (hfg : ∀ a b, R a b → S (f a) (g b)) :
    Option.Rel S (x.map f) (y.map g) := by
  cases h with
  | none => exact .none
  | some hab => exact .some (hfg _ _ hab)

theorem rel_or {α β : Type} {R : α → β → Prop} {x x' : Option α} {y y' : Option β}
    (h : Option.Rel R x y) (h' : Option.Rel R x' y') : Option.Rel R (x.or x') (y.or y') := by
  cases h with
  | none => exact h'
  | some hxy => exact .some hxy

theorem rel_find? {α β : Type} {R : α → β → Prop} {p : α → Bool} {q : β → Bool} {xs : List α}
    {ys : List β} (h : List.Forall₂ R xs ys) (hpq : ∀ x y, R x y → p x = q y) :
    Option.Rel R (xs.find? p) (ys.find? q) := by
  induction h with
  | nil => exact .none
  | @cons x y xs ys hxy _ ih =>
    rw [List.find?_cons, List.find?_cons, hpq x y hxy]
    cases q y with
    | true => exact .some hxy
    | false => exact ih

theorem exists_related {α β : Type} {R : α → β → Prop} {xs : List α} (h : ∀ x ∈ xs, ∃ y, R x y) :
    ∃ ys, List.Forall₂ R xs ys := by
  induction xs with
  | nil => exact ⟨[], .nil⟩
  | cons x xs ih =>
    obtain ⟨y, hy⟩ := h x List.mem_cons_self
    obtain ⟨ys, hys⟩ := ih fun x' hx' => h x' (List.mem_cons_of_mem _ hx')
    exact ⟨y :: ys, .cons hy hys⟩

theorem exists_forall₂ {α β γ : Type} {P : β → γ → Prop} {A : α → γ → Prop} {xs : List α}
    {ys : List β} (h : List.Forall₂ (fun x y => ∃ z, P y z ∧ A x z) xs ys) :
    ∃ zs, List.Forall₂ P ys zs ∧ List.Forall₂ A xs zs := by
  induction h with
  | nil => exact ⟨[], .nil, .nil⟩
  | cons hxy _ ih =>
    obtain ⟨z, hp, ha⟩ := hxy
    obtain ⟨zs, hps, has⟩ := ih
    exact ⟨z :: zs, .cons hp hps, .cons ha has⟩

theorem exists_zipIdx {α β γ : Type} {P : β × Nat → γ → Prop} {A : α → γ → Prop} {xs : List α}
    {ys : List β} (h : List.Forall₂ (fun x y => ∀ i, ∃ z, P (y, i) z ∧ A x z) xs ys) (start : Nat) :
    ∃ zs, List.Forall₂ P (ys.zipIdx start) zs ∧ List.Forall₂ A xs zs := by
  induction h generalizing start with
  | nil => exact ⟨[], .nil, .nil⟩
  | cons hxy _ ih =>
    obtain ⟨z, hp, ha⟩ := hxy start
    obtain ⟨zs, hps, has⟩ := ih (start + 1)
    exact ⟨z :: zs, .cons hp hps, .cons ha has⟩

theorem exists_zipIdx_between {α β γ : Type} {R : α × Nat → γ → Prop} {A : α → β → Prop}
    {P : β × Nat → γ → Prop} {xs : List α} {zs : List γ} {start : Nat}
    (h : List.Forall₂ R (xs.zipIdx start) zs)
    (hx : ∀ x ∈ xs, ∀ i z, R (x, i) z → ∃ y, A x y ∧ P (y, i) z) :
    ∃ ys, List.Forall₂ A xs ys ∧ List.Forall₂ P (ys.zipIdx start) zs := by
  induction xs generalizing start zs with
  | nil =>
    cases h
    exact ⟨[], .nil, .nil⟩
  | cons x xs ih =>
    cases h with
    | cons hfirst hrest =>
    obtain ⟨y, hy, hp⟩ := hx x List.mem_cons_self _ _ hfirst
    obtain ⟨ys, hys, hps⟩ := ih hrest fun x' hx' => hx x' (List.mem_cons_of_mem x hx')
    exact ⟨y :: ys, .cons hy hys, .cons hp hps⟩

end ShapeSchema
