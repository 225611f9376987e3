import EntitySql.Link.Placement
import Mathlib

/-! Placing the nodes of a graph: the counts are the numbers of unplaced dependencies, the queue holds the ready nodes
in order, and so every node is the least one that could be placed at its turn. -/
namespace EntitySql.Link
namespace Graph
variable {n : Nat} {g : Graph n} {i j k : Fin n} {order ready : List (Fin n)} {s : Placement n}

theorem precedes_irrefl : g.precedes i i = false := by
  simp [precedes]

theorem precedes_trans (hij : g.precedes i j) (hjk : g.precedes j k) : g.precedes i k := by
  unfold precedes at hij hjk ⊢
  cases hi : g.isView i <;> cases hj : g.isView j <;> cases hk : g.isView k <;> simp_all
  all_goals omega

theorem precedes_total (hne : i ≠ j) : g.precedes i j ∨ g.precedes j i := by
  have hlt : i < j ∨ j < i := Nat.lt_or_gt_of_ne (Fin.val_ne_of_ne hne)
  unfold precedes
  cases hi : g.isView i <;> cases hj : g.isView j <;> simp_all

theorem mem_enqueue : k ∈ g.enqueue i ready ↔ k = i ∨ k ∈ ready := by
  induction ready with
  | nil => simp [enqueue]
  | cons j ready ih =>
    rw [enqueue]
    split
    · rw [List.mem_cons]
    · rw [List.mem_cons, ih, List.mem_cons]
      exact or_left_comm

theorem sorted_enqueue (hnew : i ∉ ready) (h : ready.Pairwise (g.precedes · ·)) :
    (g.enqueue i ready).Pairwise (g.precedes · ·) := by
  induction ready with
  | nil => exact List.pairwise_singleton _ _
  | cons j ready ih =>
    obtain ⟨hj, hready⟩ := List.pairwise_cons.1 h
    obtain ⟨hne, hnew⟩ := List.ne_and_not_mem_of_not_mem_cons hnew
    rw [enqueue]
    split
    · next hij =>
      refine List.pairwise_cons.2 ⟨?_, h⟩
      intro k hk
      obtain rfl | hk := List.mem_cons.1 hk
      · exact hij
      · exact precedes_trans hij (hj k hk)
    · next hij =>
      refine List.pairwise_cons.2 ⟨?_, ih hnew hready⟩
      intro k hk
      obtain rfl | hk := mem_enqueue.1 hk
      · exact (precedes_total hne).resolve_left hij
      · exact hj k hk

def waitsFor (g : Graph n) (order : List (Fin n)) (j : Fin n) : List (Fin n) :=
  (g.dependencies j).filter (· ∉ order)

theorem mem_waitsFor : k ∈ g.waitsFor order j ↔ g.dependsOn j k ∧ k ∉ order := by
  simp [waitsFor, dependencies, and_comm]

theorem nodup_waitsFor : (g.waitsFor order j).Nodup :=
  ((List.nodup_finRange n).filter _).filter _

theorem mem_dependents : j ∈ g.dependents i ↔ g.dependsOn j i := by
  simp [dependents]

theorem length_waitsFor (hnew : i ∉ order) :
    (g.waitsFor order j).length =
      (g.waitsFor (order ++ [i]) j).length + if j ∈ g.dependents i then 1 else 0 := by
  have hrest : g.waitsFor (order ++ [i]) j = (g.waitsFor order j).erase i := by
    rw [nodup_waitsFor.erase_eq_filter, waitsFor, waitsFor, List.filter_filter]
    refine List.filter_congr fun k _ => ?_
    by_cases hk : k = i <;> simp [hk]
  have hmem : i ∈ g.waitsFor order j ↔ j ∈ g.dependents i := by
    rw [mem_waitsFor, mem_dependents]
    exact and_iff_left hnew
  rw [hrest]
  split
  · next hj =>
    have hi := hmem.2 hj
    rw [List.length_erase_of_mem hi]
    have hpos := List.length_pos_of_mem hi
    omega
  · next hj => rw [List.erase_of_not_mem (hmem.not.2 hj), Nat.add_zero]

/-- The counts are right but for nodes that are still to be released, and the queue agrees with the counts. -/
structure Counted (g : Graph n) (js : List (Fin n)) (s : Placement n) : Prop where
  pending : ∀ j : Fin n, s.count j = (g.waitsFor s.order j).length + if j ∈ js then 1 else 0
  ready : ∀ j : Fin n, j ∈ s.ready ↔ j ∉ s.order ∧ s.count j = 0
  sorted : s.ready.Pairwise (g.precedes · ·)

theorem order_release : (g.release s j).order = s.order := by
  unfold release
  split <;> rfl

theorem count_setCount (left : Nat) : (s.setCount j left).count k = if k = j then left else s.count k := by
  simp [Placement.count, Placement.setCount, Vector.getElem_set, Fin.ext_iff, eq_comm]

/-- Releasing a node corrects its count. It joins the queue if nothing is left. -/
theorem counted_release {js : List (Fin n)} (h : g.Counted (j :: js) s) (hjs : j ∉ js) (hj : j ∉ s.order) :
    g.Counted js (g.release s j) := by
  have hpending := h.pending j
  rw [if_pos List.mem_cons_self] at hpending
  have hnew : j ∉ s.ready := by
    intro hmem
    have hzero := ((h.ready j).1 hmem).2
    omega
  have hset : ∀ left, left = (g.waitsFor s.order j).length → ∀ k : Fin n,
      (s.setCount j left).count k = (g.waitsFor s.order k).length + if k ∈ js then 1 else 0 := by
    intro left hleft k
    rw [count_setCount]
    split
    · next hk => rw [hk, hleft, if_neg hjs, Nat.add_zero]
    · next hk => simp only [h.pending k, List.mem_cons, hk, false_or]
  unfold release
  split
  · next hzero => omega
  · next hone =>
    refine ⟨hset 0 (by omega), ?_, sorted_enqueue hnew h.sorted⟩
    intro k
    change k ∈ g.enqueue j s.ready ↔ k ∉ s.order ∧ (s.setCount j 0).count k = 0
    rw [mem_enqueue, count_setCount]
    by_cases hk : k = j
    · rw [hk]
      simp [hj]
    · rw [or_iff_right hk, if_neg hk]
      exact h.ready k
  · next left hleft =>
    refine ⟨hset (left + 1) (by omega), ?_, h.sorted⟩
    intro k
    change k ∈ s.ready ↔ k ∉ s.order ∧ (s.setCount j (left + 1)).count k = 0
    rw [count_setCount]
    by_cases hk : k = j
    · rw [hk]
      simp [hnew]
    · rw [if_neg hk]
      exact h.ready k

theorem counted_foldl {js : List (Fin n)} (h : g.Counted js s) (hjs : js.Nodup) (hnew : ∀ j ∈ js, j ∉ s.order) :
    g.Counted [] (js.foldl g.release s) ∧ (js.foldl g.release s).order = s.order := by
  induction js generalizing s with
  | nil => exact ⟨h, rfl⟩
  | cons j js ih =>
    obtain ⟨hj, hjs⟩ := List.nodup_cons.1 hjs
    obtain ⟨hjnew, hnew⟩ := List.forall_mem_cons.1 hnew
    have hreleased := counted_release h hj hjnew
    obtain ⟨hcounted, horder⟩ := ih hreleased hjs (by rwa [order_release])
    exact ⟨hcounted, horder.trans order_release⟩

/-- A node that can be placed: all it depends on is. -/
structure Ready (g : Graph n) (order : List (Fin n)) (i : Fin n) : Prop where
  unplaced : i ∉ order
  placed : ∀ j, g.dependsOn i j → j ∈ order

/-- The first of the nodes that can be placed. -/
structure Next (g : Graph n) (order : List (Fin n)) (i : Fin n) : Prop where
  ready : g.Ready order i
  least : ∀ j, g.Ready order j → j = i ∨ g.precedes i j

/-- The queue and the counts are right, and each node was placed at its turn. -/
structure Placed (g : Graph n) (s : Placement n) : Prop where
  counted : g.Counted [] s
  nodup : s.order.Nodup
  next : ∀ before i after, s.order = before ++ i :: after → g.Next before i

theorem Counted.mem_ready_iff (h : g.Counted [] s) : i ∈ s.ready ↔ g.Ready s.order i := by
  rw [h.ready, h.pending, if_neg List.not_mem_nil, Nat.add_zero, List.length_eq_zero_iff,
    List.eq_nil_iff_forall_not_mem]
  constructor
  · rintro ⟨hunplaced, hnone⟩
    refine ⟨hunplaced, fun j hj => ?_⟩
    by_contra hout
    exact hnone j (mem_waitsFor.2 ⟨hj, hout⟩)
  · intro hready
    refine ⟨hready.unplaced, fun j hj => ?_⟩
    obtain ⟨hdepends, hout⟩ := mem_waitsFor.1 hj
    exact hout (hready.placed j hdepends)

theorem Placed.closed (h : g.Placed s) (hi : i ∈ s.order) (hdepends : g.dependsOn i j) : j ∈ s.order := by
  obtain ⟨before, after, horder⟩ := List.append_of_mem hi
  rw [horder]
  exact List.mem_append_left _ ((h.next before i after horder).ready.placed j hdepends)

theorem mem_foldr_enqueue {js : List (Fin n)} : i ∈ js.foldr g.enqueue [] ↔ i ∈ js := by
  induction js with
  | nil => rfl
  | cons j js ih => rw [List.foldr_cons, mem_enqueue, ih, List.mem_cons]

theorem sorted_foldr_enqueue {js : List (Fin n)} (h : js.Nodup) :
    (js.foldr g.enqueue []).Pairwise (g.precedes · ·) := by
  induction js with
  | nil => exact .nil
  | cons j js ih =>
    obtain ⟨hj, hjs⟩ := List.nodup_cons.1 h
    exact sorted_enqueue (mem_foldr_enqueue.not.2 hj) (ih hjs)

theorem count_start : g.start.count j = (g.dependencies j).length := by
  simp [start, Placement.count]

theorem placed_start : g.Placed g.start where
  counted :=
    { pending := fun j => by
        rw [count_start]
        simp [start, waitsFor]
      ready := fun j => by
        rw [count_start]
        simp [start, mem_foldr_enqueue]
      sorted := sorted_foldr_enqueue ((List.nodup_finRange n).filter _) }
  nodup := List.nodup_nil
  next := by simp [start]

/-- Where a list with one element more is split: at that element, or before it. -/
theorem splits_concat {before after : List (Fin n)} (h : order ++ [k] = before ++ i :: after) :
    (before = order ∧ i = k) ∨ ∃ rest, order = before ++ i :: rest := by
  obtain rfl | ⟨rest, last, rfl⟩ := List.eq_nil_or_concat after
  · obtain ⟨horder, hlast⟩ := List.append_inj' h rfl
    exact .inl ⟨horder.symm, (List.cons.inj hlast).1.symm⟩
  · rw [List.concat_eq_append, ← List.cons_append, ← List.append_assoc] at h
    exact .inr ⟨rest, (List.append_inj' h rfl).1⟩

/-- One step: the first node of the queue is the next one. -/
theorem placed_advance (h : g.Placed s) (hs : s.ready = i :: ready) : g.Placed (g.advance s i ready) := by
  have hready : g.Ready s.order i := h.counted.mem_ready_iff.1 (by simp [hs])
  have hsorted := h.counted.sorted
  rw [hs] at hsorted
  obtain ⟨hfirst, hsorted⟩ := List.pairwise_cons.1 hsorted
  have hnotMem : i ∉ ready := by
    intro hmem
    have hself := hfirst i hmem
    rw [precedes_irrefl] at hself
    cases hself
  have hnext : g.Next s.order i := by
    refine ⟨hready, fun j hj => ?_⟩
    have hmem := h.counted.mem_ready_iff.2 hj
    rw [hs] at hmem
    exact (List.mem_cons.1 hmem).imp id (hfirst j)
  -- with `i` placed the counts of what depends on it are one too high
  have hcounted : g.Counted (g.dependents i) { s with ready, order := s.order ++ [i] } := by
    refine ⟨fun j => ?_, fun j => ?_, hsorted⟩
    · have hpending := h.counted.pending j
      rw [length_waitsFor hready.unplaced, if_neg List.not_mem_nil, Nat.add_zero] at hpending
      exact hpending
    · have hmem := h.counted.ready j
      rw [hs, List.mem_cons] at hmem
      constructor
      · intro hj
        obtain ⟨hout, hzero⟩ := hmem.1 (.inr hj)
        refine ⟨?_, hzero⟩
        intro hplaced
        obtain hplaced | hplaced := List.mem_append.1 hplaced
        · exact hout hplaced
        · exact hnotMem (List.mem_singleton.1 hplaced ▸ hj)
      · rintro ⟨hout, hzero⟩
        have hne : j ≠ i := fun heq => hout (by simp [heq])
        exact (hmem.2 ⟨fun hplaced => hout (List.mem_append_left _ hplaced), hzero⟩).resolve_left hne
  have hnew : ∀ j ∈ g.dependents i, j ∉ s.order ++ [i] := by
    intro j hj hmem
    have hdepends := mem_dependents.1 hj
    obtain hmem | hmem := List.mem_append.1 hmem
    · exact hready.unplaced (h.closed hmem hdepends)
    · rw [List.mem_singleton.1 hmem] at hdepends
      exact hready.unplaced (hready.placed i hdepends)
  obtain ⟨hcounted, horder⟩ := counted_foldl hcounted ((List.nodup_finRange n).filter _) hnew
  refine ⟨hcounted, ?_, ?_⟩
  · rw [advance, horder]
    exact h.nodup.append (List.nodup_singleton i) (List.disjoint_singleton.2 hready.unplaced)
  · intro before k after hsplit
    rw [advance, horder] at hsplit
    obtain ⟨rfl, rfl⟩ | ⟨rest, hrest⟩ := splits_concat hsplit
    · exact hnext
    · exact h.next before k rest hrest

/-- A run: every node is placed at its turn. -/
theorem placed_place (h : g.Placed s) : g.Placed (g.place s) := by
  fun_induction place g s with
  | case1 s hs => exact h
  | case2 s i ready hs hwork ih => exact ih (placed_advance h hs)

/-- A run ends when no node can be placed. -/
theorem not_ready_place (h : g.Placed s) : ¬g.Ready (g.place s).order i := by
  have hempty : (g.place s).ready = [] := by
    fun_induction place g s with
    | case1 s hs => exact hs
    | case2 s i ready hs hwork ih => exact ih (placed_advance h hs)
  intro hready
  have hmem := (placed_place h).counted.mem_ready_iff.2 hready
  rw [hempty] at hmem
  cases hmem

end Graph

end EntitySql.Link
