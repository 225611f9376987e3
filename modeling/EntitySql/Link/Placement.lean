/-!
Placing the nodes of a graph one after another, each after all it depends on. Every node counts the dependencies
that it still waits for; those that wait for none stand in a queue, the next one first.
-/
namespace EntitySql.Link

/-- Tables and views, numbered in declaration order, with what they depend on. -/
structure Graph (n : Nat) where
  dependsOn : Fin n → Fin n → Bool
  isView : Fin n → Bool

/-- How far the nodes are placed. -/
structure Placement (n : Nat) where
  /-- How many dependencies a node waits for. -/
  pending : Vector Nat n
  /-- The nodes that wait for none, in the order in which they are to be placed. -/
  ready : List (Fin n)
  /-- The nodes that are placed, in order. -/
  order : List (Fin n)

namespace Placement
variable {n : Nat} (s : Placement n)

def count (j : Fin n) : Nat :=
  s.pending[j]

def setCount (j : Fin n) (left : Nat) : Placement n :=
  { s with pending := s.pending.set j left }

/-- Bounds how many nodes are still to be placed. -/
def work : Nat :=
  s.pending.countP (0 < ·) + s.ready.length

/-- A node that still waits keeps the work the same. -/
theorem work_setCount {j : Fin n} (hcount : 0 < s.count j) (left : Nat) :
    (s.setCount j left).work + 1 = s.work + if 0 < left then 1 else 0 := by
  have hpos : 0 < s.pending.countP (0 < ·) :=
    Vector.countP_pos_iff.2 ⟨s.count j, Vector.getElem_mem j.isLt, by simpa using hcount⟩
  have hwas : 0 < s.pending[j.val] := hcount
  simp only [work, setCount, Vector.countP_set, hwas, decide_true, if_true, decide_eq_true_eq]
  omega

end Placement

namespace Graph
variable {n : Nat} (g : Graph n)

def dependencies (i : Fin n) : List (Fin n) :=
  (List.finRange n).filter (g.dependsOn i)

def dependents (i : Fin n) : List (Fin n) :=
  (List.finRange n).filter (g.dependsOn · i)

/-- Tables go before views, otherwise the declaration order decides. -/
def precedes (i j : Fin n) : Bool :=
  if g.isView i = g.isView j then decide (i < j) else g.isView j

def enqueue (i : Fin n) : List (Fin n) → List (Fin n)
  | [] => [i]
  | j :: rest => if g.precedes i j then i :: j :: rest else j :: enqueue i rest

def start : Placement n where
  pending := Vector.ofFn fun i => (g.dependencies i).length
  ready := ((List.finRange n).filter fun i => (g.dependencies i).length = 0).foldr g.enqueue []
  order := []

def release (s : Placement n) (j : Fin n) : Placement n :=
  match s.count j with
  | 0 => s -- not met in a run: a node is released once for each dependency it waits for
  | 1 => { s.setCount j 0 with ready := g.enqueue j s.ready }
  | left + 2 => s.setCount j (left + 1)

/-- Places a node before the rest of the queue. -/
def advance (s : Placement n) (i : Fin n) (ready : List (Fin n)) : Placement n :=
  (g.dependents i).foldl g.release { s with ready, order := s.order ++ [i] }

theorem length_enqueue (i : Fin n) (ready : List (Fin n)) : (g.enqueue i ready).length = ready.length + 1 := by
  induction ready with
  | nil => rfl
  | cons j ready ih =>
    rw [enqueue]
    split
    · rfl
    · rw [List.length_cons, ih, List.length_cons]

/-- A node that waits for its last dependency leaves the count and joins the queue. -/
theorem work_release (s : Placement n) (j : Fin n) : (g.release s j).work = s.work := by
  unfold release
  split
  · rfl
  · next hcount =>
    have hwork := s.work_setCount (j := j) (by omega) 0
    have hqueue := g.length_enqueue j s.ready
    rw [if_neg (Nat.lt_irrefl 0)] at hwork
    simp only [Placement.work, Placement.setCount] at hwork ⊢
    omega
  · next left hcount =>
    have hwork := s.work_setCount (j := j) (by omega) (left + 1)
    rw [if_pos (Nat.succ_pos left)] at hwork
    omega

theorem work_advance (s : Placement n) (i : Fin n) (ready : List (Fin n)) :
    (g.advance s i ready).work = s.pending.countP (0 < ·) + ready.length := by
  have hfold : ∀ (js : List (Fin n)) (s : Placement n), (js.foldl g.release s).work = s.work := by
    intro js
    induction js with
    | nil => exact fun _ => rfl
    | cons j js ih => exact fun s => (ih (g.release s j)).trans (g.work_release s j)
  exact hfold _ _

/-- Places the nodes in the queue, and those that join it. -/
def place (s : Placement n) : Placement n :=
  match h : s.ready with
  | [] => s
  | i :: ready =>
    have : (g.advance s i ready).work < s.work := by
      rw [work_advance, Placement.work, h, List.length_cons]
      omega
    place (g.advance s i ready)
termination_by s.work

end Graph

end EntitySql.Link
