import Mathlib.Data.List.Basic
import Mathlib.Data.Nat.ModEq
import LinkFPGA.Library.Runs

/-!
# Ring buffers as bounded queues

A ring of `cap` cells holds the queue of the `n` cells from a read position on. The positions are
free-running: only their residues modulo `cap` matter, so a counter of any width that `cap`
divides will do. `QueueOp` is the queue the ring stands for: appending to a full queue drops its
oldest element.
-/

namespace LinkFPGA.RingQueue

variable {α : Type*} {cap : Nat}

/-! ## The bounded queue -/

/-- Append an element; a full queue drops its oldest one. -/
def enqueue (cap : Nat) (q : List α) (v : α) : List α :=
  if q.length < cap then q ++ [v] else q.tail ++ [v]

/-- What can be done to a bounded queue. -/
inductive QueueOp (α : Type*) where
  | append (vs : List α)
  | take

/-- The queue after an operation. -/
def QueueOp.step (cap : Nat) (q : List α) : QueueOp α → List α
  | .append vs => vs.foldl (enqueue cap) q
  | .take => q.tail

/-- What an operation takes out of the queue. -/
def QueueOp.taken (q : List α) : QueueOp α → List α
  | .append _ => []
  | .take => q.head?.toList

theorem enqueue_length_le (hcap : 0 < cap) {q : List α} (hq : q.length ≤ cap) (v : α) :
    (enqueue cap q v).length ≤ cap := by
  unfold enqueue
  split
  · simp
    omega
  · simp
    omega

/-- A queue appends what fits, and keeps the newest elements of what does not. -/
theorem foldl_enqueue (hcap : 0 < cap) {q : List α} (hq : q.length ≤ cap) (vs : List α) :
    vs.foldl (enqueue cap) q = (q ++ vs).drop ((q ++ vs).length - cap) := by
  induction vs generalizing q with
  | nil =>
      have hnone : (q ++ []).length - cap = 0 := by simp [hq]
      rw [hnone]
      simp
  | cons v vs ih =>
      rw [List.foldl_cons, ih (enqueue_length_le hcap hq v)]
      unfold enqueue
      split
      · simp
      · rename_i hfull
        have hlen : q.length = cap := by omega
        cases q with
        | nil =>
            simp only [List.length_nil] at hlen
            omega
        | cons a q =>
            have hsucc : ((a :: q) ++ v :: vs).length - cap = (q ++ v :: vs).length - cap + 1 := by
              simp only [List.length_cons, List.length_append] at hlen ⊢
              omega
            rw [hsucc]
            simp

/-! ## Runs of the queue -/

/-- What an operation puts into the queue. -/
def QueueOp.appended : QueueOp α → List α
  | .append vs => vs
  | .take => []

/-- There is room for all that the operation appends. -/
def QueueOp.Fits (cap : Nat) (q : List α) : QueueOp α → Prop
  | .append vs => q.length + vs.length ≤ cap
  | .take => True

instance (cap : Nat) (q : List α) : (op : QueueOp α) → Decidable (op.Fits cap q)
  | .append vs => inferInstanceAs (Decidable (q.length + vs.length ≤ cap))
  | .take => inferInstanceAs (Decidable True)

/-- The queue holds at most `cap` elements throughout. -/
theorem step_length_le (hcap : 0 < cap) {q : List α} (hq : q.length ≤ cap) (op : QueueOp α) :
    (op.step cap q).length ≤ cap := by
  cases op with
  | append vs =>
      rw [QueueOp.step, foldl_enqueue hcap hq, List.length_drop]
      omega
  | take =>
      rw [QueueOp.step, List.length_tail]
      omega

/-- Taking an element and keeping the rest loses nothing. -/
theorem taken_append_tail (q : List α) : QueueOp.taken q .take ++ q.tail = q := by
  cases q with
  | nil => rfl
  | cons a q => rfl

/-- What one operation takes out and what it leaves is, in order, part of what was there and what
it appends. -/
theorem taken_step_sublist (hcap : 0 < cap) {q : List α} (hq : q.length ≤ cap) (op : QueueOp α) :
    (op.taken q ++ op.step cap q).Sublist (q ++ op.appended) := by
  cases op with
  | append vs =>
      rw [QueueOp.step, foldl_enqueue hcap hq]
      exact List.drop_sublist _ _
  | take =>
      rw [QueueOp.step, taken_append_tail, QueueOp.appended, List.append_nil]

/-- With room for what it appends, it is all of it. -/
theorem taken_step_eq (hcap : 0 < cap) {q : List α} (hq : q.length ≤ cap) {op : QueueOp α}
    (hfits : op.Fits cap q) : op.taken q ++ op.step cap q = q ++ op.appended := by
  cases op with
  | append vs =>
      have hall : (q ++ vs).length - cap = 0 := by
        rw [List.length_append]
        exact Nat.sub_eq_zero_of_le hfits
      rw [QueueOp.step, foldl_enqueue hcap hq, hall]
      rfl
  | take => rw [QueueOp.step, taken_append_tail, QueueOp.appended, List.append_nil]

/-- Whatever is done to a queue, what comes out of it and what stays in it is, in order, part of
what it held and what was appended. -/
theorem run_taken_sublist (hcap : 0 < cap) {q : List α} (hq : q.length ≤ cap)
    (ops : List (QueueOp α)) :
    (Runs.log (QueueOp.step cap) QueueOp.taken q ops ++ Runs.run (QueueOp.step cap) q ops).Sublist
      (q ++ ops.flatMap QueueOp.appended) := by
  induction ops generalizing q with
  | nil => exact List.sublist_append_left q []
  | cons op ops ih =>
      rw [Runs.log_cons, Runs.run_cons, List.flatMap_cons, List.append_assoc, ← List.append_assoc q]
      refine ((ih (step_length_le hcap hq op)).append_left _).trans ?_
      rw [← List.append_assoc]
      exact (taken_step_sublist hcap hq op).append_right _

/-- With room for everything that is appended, nothing is lost. -/
theorem run_taken_eq (hcap : 0 < cap) {q : List α} (hq : q.length ≤ cap) {ops : List (QueueOp α)}
    (hfits : Runs.Guarded (QueueOp.step cap) (QueueOp.Fits cap) q ops) :
    Runs.log (QueueOp.step cap) QueueOp.taken q ops ++ Runs.run (QueueOp.step cap) q ops =
      q ++ ops.flatMap QueueOp.appended := by
  induction ops generalizing q with
  | nil => exact (List.append_nil q).symm
  | cons op ops ih =>
      rw [Runs.log_cons, Runs.run_cons, List.flatMap_cons, List.append_assoc,
        ih (step_length_le hcap hq op) hfits.2, ← List.append_assoc, taken_step_eq hcap hq hfits.1,
        List.append_assoc]

/-! ## The ring -/

/-- Distinct positions that are less than a turn apart have distinct cells. -/
theorem residue_ne {r j k : Nat} (hj : j < cap) (hk : k < cap) (hne : j ≠ k) :
    (r + j) % cap ≠ (r + k) % cap := by
  intro heq
  have hmod : j % cap = k % cap := Nat.ModEq.add_left_cancel' r heq
  rw [Nat.mod_eq_of_lt hj, Nat.mod_eq_of_lt hk] at hmod
  exact hne hmod

variable [NeZero cap]

/-- The cell at a free-running position. -/
def cellAt (cells : Vector α cap) (pos : Nat) : α :=
  cells.get ⟨pos % cap, Nat.mod_lt _ (Nat.pos_of_neZero cap)⟩

/-- The `n` cells from position `r` on. -/
def contents (cells : Vector α cap) (r n : Nat) : List α :=
  (List.range n).map fun k => cellAt cells (r + k)

@[simp] theorem contents_length (cells : Vector α cap) (r n : Nat) :
    (contents cells r n).length = n := by
  simp [contents]

/-- Positions of one residue name one cell. -/
theorem cell_at_congr (cells : Vector α cap) {pos pos' : Nat} (h : pos % cap = pos' % cap) :
    cellAt cells pos = cellAt cells pos' := by
  simp only [cellAt, h]

/-- The queue depends on the residue of the read position only. -/
theorem contents_congr (cells : Vector α cap) {r r' : Nat} (h : r % cap = r' % cap) (n : Nat) :
    contents cells r n = contents cells r' n := by
  unfold contents
  refine List.map_congr_left ?_
  intro k _
  exact cell_at_congr cells (Nat.ModEq.add_right k h)

/-- Reading moves the read position over the oldest element. -/
theorem contents_succ (cells : Vector α cap) (r n : Nat) :
    contents cells r (n + 1) = cellAt cells r :: contents cells (r + 1) n := by
  unfold contents
  rw [List.range_succ_eq_map, List.map_cons, List.map_map]
  congr 1
  refine List.map_congr_left ?_
  intro k _
  show cellAt cells (r + (k + 1)) = cellAt cells (r + 1 + k)
  congr 1
  omega

/-- A written cell, and the others. -/
theorem cell_at_set (cells : Vector α cap) {i : Nat} (hi : i < cap) (v : α) (pos : Nat) :
    cellAt (cells.set i v hi) pos = if i = pos % cap then v else cellAt cells pos := by
  have hpos : pos % cap < cap := Nat.mod_lt _ (Nat.pos_of_neZero cap)
  show (cells.set i v hi)[pos % cap] = _
  rw [Vector.getElem_set]
  rfl

/-- Writing at the end of a ring that is not full appends to the queue. -/
theorem contents_push (cells : Vector α cap) (r : Nat) {n i : Nat} (hn : n < cap) (hi : i < cap)
    (hend : i = (r + n) % cap) (v : α) :
    contents (cells.set i v hi) r (n + 1) = contents cells r n ++ [v] := by
  unfold contents
  rw [List.range_succ, List.map_append]
  congr 1
  · refine List.map_congr_left ?_
    intro k hk
    rw [List.mem_range] at hk
    have hother : i ≠ (r + k) % cap := by
      rw [hend]
      exact residue_ne hn (by omega) (by omega)
    rw [cell_at_set, if_neg hother]
  · simp [cell_at_set, hend]

/-- Writing at the end of a full ring, whose read position moves on, drops the oldest element. -/
theorem contents_push_full (cells : Vector α cap) (r : Nat) {i : Nat} (hi : i < cap)
    (hend : i = r % cap) (v : α) :
    contents (cells.set i v hi) (r + 1) cap = (contents cells r cap).tail ++ [v] := by
  obtain ⟨m, rfl⟩ : ∃ m, cap = m + 1 := ⟨cap - 1, by have := Nat.pos_of_neZero cap; omega⟩
  have hlast : i = (r + 1 + m) % (m + 1) := by
    rw [hend, Nat.add_assoc, Nat.add_comm 1 m, Nat.add_mod_right]
  rw [contents_succ cells r m, List.tail_cons]
  exact contents_push cells (r + 1) (Nat.lt_succ_self m) hi hlast v

end LinkFPGA.RingQueue
