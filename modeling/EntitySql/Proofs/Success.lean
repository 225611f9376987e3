import Mathlib

/-! What follows when a computation that can fail succeeds: every step of it did. -/
namespace EntitySql
variable {ε α β : Type}

theorem bind_eq_ok {x : Except ε α} {f : α → Except ε β} {b : β} :
    x >>= f = .ok b ↔ ∃ a, x = .ok a ∧ f a = .ok b := by
  cases x with
  | error e => simp [bind, Except.bind]
  | ok a => simp [bind, Except.bind]

theorem map_eq_ok {x : Except ε α} {f : α → β} {b : β} : x.map f = .ok b ↔ ∃ a, x = .ok a ∧ f a = b := by
  cases x with
  | error e => simp [Except.map]
  | ok a => simp [Except.map]

theorem pure_eq_ok {a b : α} : (pure a : Except ε α) = .ok b ↔ a = b :=
  Except.ok.injEq a b ▸ Iff.rfl

theorem exists_ok_of_toBool {x : Except ε α} (h : x.toBool = true) : ∃ a, x = .ok a := by
  cases x with
  | error e => cases h
  | ok a => exact ⟨a, rfl⟩

theorem exists_ok_of_toOption {x : Except ε α} {f : α → β} {b : β} (h : x.toOption.map f = some b) :
    ∃ a, x = .ok a ∧ f a = b := by
  cases x with
  | error e => cases h
  | ok a => exact ⟨a, rfl, Option.some.inj h⟩

theorem throw_ne_ok {e : ε} {a : α} : (throw e : Except ε α) ≠ .ok a :=
  fun h => nomatch h

theorem throw_bind_ne_ok {e : ε} {f : α → Except ε β} {b : β} : (throw e >>= f) ≠ .ok b :=
  fun h => nomatch h

/-- A traversal succeeds with the results of all its steps, in order. -/
theorem mapM_eq_ok {f : α → Except ε β} {xs : List α} {ys : List β} :
    xs.mapM f = .ok ys ↔ List.Forall₂ (fun x y => f x = .ok y) xs ys := by
  induction xs generalizing ys with
  | nil =>
    rw [List.mapM_nil, pure_eq_ok, List.forall₂_nil_left_iff]
    exact eq_comm
  | cons x xs ih =>
    rw [List.mapM_cons, bind_eq_ok, List.forall₂_cons_left_iff]
    constructor
    · rintro ⟨y, hy, hrest⟩
      obtain ⟨ys', hys', hcons⟩ := bind_eq_ok.1 hrest
      exact ⟨y, ys', hy, ih.1 hys', (pure_eq_ok.1 hcons).symm⟩
    · rintro ⟨y, ys', hy, hys', rfl⟩
      exact ⟨y, hy, bind_eq_ok.2 ⟨ys', ih.2 hys', rfl⟩⟩

/-- A traversal whose steps can only give one result each gives those results. -/
theorem eq_map_of_mapM {f : α → Except ε β} {g : α → β} {xs : List α} {ys : List β}
    (h : xs.mapM f = .ok ys) (hf : ∀ x ∈ xs, ∀ y, f x = .ok y → y = g x) : ys = xs.map g := by
  have hall := mapM_eq_ok.1 h
  clear h
  induction hall with
  | nil => rfl
  | cons hy _ ih =>
    rw [List.map_cons, hf _ List.mem_cons_self _ hy]
    exact congrArg _ (ih fun x hx => hf x (List.mem_cons_of_mem _ hx))

/-- What is read off the results of a traversal can be read off the elements that it went through. -/
theorem map_eq_of_mapM {γ : Type} {f : α → Except ε β} {g : β → γ} {k : α → γ} {xs : List α} {ys : List β}
    (h : xs.mapM f = .ok ys) (hf : ∀ x y, f x = .ok y → g y = k x) : ys.map g = xs.map k := by
  have hall := mapM_eq_ok.1 h
  clear h
  induction hall with
  | nil => rfl
  | cons hy _ ih => rw [List.map_cons, List.map_cons, hf _ _ hy, ih]

/-- What holds between the elements of a traversal and their results holds between what is read off both. -/
theorem forall₂_map_of_mapM {γ δ : Type} {R : γ → δ → Prop} {f : α → Except ε β} {k : α → γ} {g : β → δ} {xs : List α}
    {ys : List β} (h : xs.mapM f = .ok ys) (hf : ∀ x y, f x = .ok y → R (k x) (g y)) :
    List.Forall₂ R (xs.map k) (ys.map g) := by
  rw [List.forall₂_map_left_iff, List.forall₂_map_right_iff]
  exact (mapM_eq_ok.1 h).imp hf

/-- What succeeds of a list keeps its order: what is read off the results is read off some of the elements. -/
theorem sublist_of_filterMap {γ : Type} {f : α → Option β} {key : β → γ} {place : α → γ}
    (h : ∀ a b, f a = some b → key b = place a) (xs : List α) :
    ((xs.filterMap f).map key).Sublist (xs.map place) := by
  induction xs with
  | nil => exact .slnil
  | cons x xs ih =>
    cases hx : f x with
    | none =>
      rw [List.filterMap_cons_none hx, List.map_cons]
      exact ih.cons _
    | some b =>
      rw [List.filterMap_cons_some hx, List.map_cons, List.map_cons, h x b hx]
      exact ih.cons_cons _

theorem mapM_map_eq_ok {γ : Type} {f : α → Except ε β} {g : β → γ} {xs : List α} {zs : List γ} :
    xs.mapM (fun x => (f x).map g) = .ok zs ↔ ∃ ys, xs.mapM f = .ok ys ∧ ys.map g = zs := by
  induction xs generalizing zs with
  | nil => simp [pure_eq_ok]
  | cons x xs ih =>
    rw [List.mapM_cons, List.mapM_cons, bind_eq_ok]
    constructor
    · rintro ⟨z, hz, hrest⟩
      obtain ⟨y, hy, rfl⟩ := map_eq_ok.1 hz
      obtain ⟨zs', hzs', hcons⟩ := bind_eq_ok.1 hrest
      obtain ⟨ys', hys', rfl⟩ := ih.1 hzs'
      exact ⟨y :: ys', bind_eq_ok.2 ⟨y, hy, bind_eq_ok.2 ⟨ys', hys', rfl⟩⟩, pure_eq_ok.1 hcons⟩
    · rintro ⟨ys, hys, rfl⟩
      obtain ⟨y, hy, hrest⟩ := bind_eq_ok.1 hys
      obtain ⟨ys', hys', hcons⟩ := bind_eq_ok.1 hrest
      obtain rfl := pure_eq_ok.1 hcons
      exact ⟨g y, map_eq_ok.2 ⟨y, hy, rfl⟩, bind_eq_ok.2 ⟨ys'.map g, ih.2 ⟨ys', hys', rfl⟩, rfl⟩⟩

theorem exists_of_forall₂ {R : α → β → Prop} {xs : List α} {ys : List β} (h : List.Forall₂ R xs ys) {x : α}
    (hx : x ∈ xs) : ∃ y ∈ ys, R x y := by
  induction h with
  | nil => cases hx
  | cons hfirst _ ih =>
    obtain rfl | hx := List.mem_cons.1 hx
    · exact ⟨_, List.mem_cons_self, hfirst⟩
    · obtain ⟨y, hmem, hy⟩ := ih hx
      exact ⟨y, List.mem_cons_of_mem _ hmem, hy⟩

theorem exists_of_mem_forall₂ {R : α → β → Prop} {xs : List α} {ys : List β} (h : List.Forall₂ R xs ys) {y : β}
    (hy : y ∈ ys) : ∃ x ∈ xs, R x y :=
  exists_of_forall₂ h.flip hy

theorem exists_of_mapM {f : α → Except ε β} {xs : List α} {ys : List β} (h : xs.mapM f = .ok ys) {x : α}
    (hx : x ∈ xs) : ∃ y ∈ ys, f x = .ok y :=
  exists_of_forall₂ (mapM_eq_ok.1 h) hx

theorem exists_of_mem_mapM {f : α → Except ε β} {xs : List α} {ys : List β} (h : xs.mapM f = .ok ys) {y : β}
    (hy : y ∈ ys) : ∃ x ∈ xs, f x = .ok y :=
  exists_of_mem_forall₂ (mapM_eq_ok.1 h) hy

theorem exists_bind_eq_ok {x : Except ε α} {f : α → Except ε β} :
    (∃ b, x >>= f = .ok b) ↔ ∃ a, x = .ok a ∧ ∃ b, f a = .ok b := by
  constructor
  · rintro ⟨b, h⟩
    obtain ⟨a, hx, hf⟩ := bind_eq_ok.1 h
    exact ⟨a, hx, b, hf⟩
  · rintro ⟨a, hx, b, hf⟩
    exact ⟨b, bind_eq_ok.2 ⟨a, hx, hf⟩⟩

theorem exists_mapM_eq_ok {f : α → Except ε β} {xs : List α} :
    (∃ ys, xs.mapM f = .ok ys) ↔ ∀ x ∈ xs, ∃ y, f x = .ok y := by
  constructor
  · rintro ⟨ys, h⟩ x hx
    obtain ⟨y, -, hy⟩ := exists_of_mapM h hx
    exact ⟨y, hy⟩
  · intro h
    induction xs with
    | nil => exact ⟨[], rfl⟩
    | cons x xs ih =>
      obtain ⟨hx, hxs⟩ := List.forall_mem_cons.1 h
      obtain ⟨y, hy⟩ := hx
      obtain ⟨ys, hys⟩ := ih hxs
      rw [List.mapM_cons]
      exact ⟨y :: ys, bind_eq_ok.2 ⟨y, hy, bind_eq_ok.2 ⟨ys, hys, rfl⟩⟩⟩

/-- A traversal of the same elements in another order gives the same results in another order. -/
theorem mapM_perm {f : α → Except ε β} {xs xs' : List α} {ys ys' : List β} (hperm : xs.Perm xs')
    (h : xs.mapM f = .ok ys) (h' : xs'.mapM f = .ok ys') : ys.Perm ys' := by
  obtain ⟨zs, hzs, hresults⟩ := List.perm_comp_forall₂ hperm (mapM_eq_ok.1 h')
  have hsame := mapM_eq_ok.2 hzs
  rw [h] at hsame
  rw [Except.ok.inj hsame]
  exact hresults

end EntitySql
