import Mathlib.Algebra.Order.Floor.Semifield
import Mathlib.Tactic.Ring
import LinkFPGA.Library.Clocked

/-!
# A wire of one clock domain sampled by another

`ClockAt` is a free-running clock on a continuous time line. Time is split at its edges:
`lt_before_iff` says which edges come before a point in time, so the edges inside an interval are
those between two counts. `sample` is what such a clock sees of a wire that another clock of
period `T` drives, `le_state_at_iff` which state of the wire that is. `ticks_window` counts the
samples of a wire that is high for a while and then low.
-/

namespace LinkFPGA.Sampling

open Clocked

variable {K : Type*} [Field K] [LinearOrder K]

/-- A clock with its period and the time of its first edge. -/
structure ClockAt (K : Type*) [Field K] [LinearOrder K] where
  period : K
  phase : K
  period_pos : 0 < period
  phase_nonneg : 0 ≤ phase
  phase_lt : phase < period

/-- The time of an edge. -/
def ClockAt.edge (c : ClockAt K) (m : ℕ) : K := c.phase + m * c.period

theorem ClockAt.edge_succ (c : ClockAt K) (m : ℕ) : c.edge (m + 1) = c.edge m + c.period := by
  unfold edge
  push_cast
  ring

theorem ClockAt.edge_nonneg [IsStrictOrderedRing K] (c : ClockAt K) (m : ℕ) : 0 ≤ c.edge m :=
  add_nonneg c.phase_nonneg (mul_nonneg m.cast_nonneg c.period_pos.le)

variable [FloorSemiring K]

/-- How many edges there are before `t`. -/
def ClockAt.before (c : ClockAt K) (t : K) : ℕ := ⌈(t - c.phase) / c.period⌉₊

/-- How often a wire that changes every `T` has changed when edge `m` comes. -/
def ClockAt.stateAt (c : ClockAt K) (T : K) (m : ℕ) : ℕ := ⌊c.edge m / T⌋₊

/-- What the clock sees at its edge `m` of a wire that changes every `T`. -/
def sample {α : Type*} (c : ClockAt K) (T : K) (w : ℕ → α) (m : ℕ) : α := w (c.stateAt T m)

section Edges

variable [IsStrictOrderedRing K] (c : ClockAt K)

/-- The edges before `t` are the first ones. -/
theorem ClockAt.lt_before_iff (m : ℕ) (t : K) : m < c.before t ↔ c.edge m < t := by
  unfold before edge
  rw [Nat.lt_ceil, lt_div_iff₀ c.period_pos, lt_sub_iff_add_lt']

theorem ClockAt.before_le_iff (m : ℕ) (t : K) : c.before t ≤ m ↔ t ≤ c.edge m := by
  rw [← not_lt, c.lt_before_iff, not_lt]

theorem ClockAt.before_mono {a b : K} (h : a ≤ b) : c.before a ≤ c.before b :=
  (c.before_le_iff _ _).mpr (h.trans ((c.before_le_iff _ _).mp le_rfl))

/-- The first edge from `t` on comes within one period. -/
theorem ClockAt.next_edge_lt {t : K} (ht : 0 ≤ t) : c.edge (c.before t) < t + c.period := by
  cases hcount : c.before t with
  | zero =>
      have hfirst : c.edge 0 = c.phase := by simp [edge]
      rw [hfirst]
      exact c.phase_lt.trans_le (le_add_of_nonneg_left ht)
  | succ m =>
      rw [c.edge_succ]
      exact add_lt_add_left ((c.lt_before_iff m t).mp (by omega)) _

/-- A slower clock's cycle contains an edge. -/
theorem ClockAt.before_lt_before {t T : K} (ht : 0 ≤ t) (hT : c.period ≤ T) :
    c.before t < c.before (t + T) :=
  (c.lt_before_iff _ _).mpr ((c.next_edge_lt ht).trans_le (add_le_add_right hT t))

/-- The wire has come to its state `n` when edge `m` is not before it. -/
theorem ClockAt.le_state_at_iff {T : K} (hT : 0 < T) (m n : ℕ) :
    n ≤ c.stateAt T m ↔ n * T ≤ c.edge m := by
  rw [stateAt, Nat.le_floor_iff (div_nonneg (c.edge_nonneg m) hT.le), le_div_iff₀ hT]

end Edges

/-- A wire that is high from cycle `a` up to `b` and then low up to `d`. -/
theorem ticks_window {w : ℕ → Bool} {a b d : ℕ} (hab : a ≤ b) (hbd : b ≤ d)
    (hhigh : ∀ m, a ≤ m → m < b → w m = true) (hlow : ∀ m, b ≤ m → m < d → w m = false) :
    ticks w d = ticks w a + (b - a) := by
  induction d, hbd using Nat.le_induction with
  | base =>
      induction b, hab using Nat.le_induction with
      | base => rw [Nat.sub_self, Nat.add_zero]
      | succ b hab ih =>
          rw [ticks_succ_of_tick (hhigh b hab (Nat.lt_succ_self b)),
            ih (fun m hm hmb ↦ hhigh m hm (by omega)) fun m hm hmb ↦ absurd hmb (by omega)]
          omega
  | succ d hbd ih =>
      rw [ticks_succ_of_idle (hlow d hbd (Nat.lt_succ_self d)),
        ih fun m hm hmd ↦ hlow m hm (by omega)]

end LinkFPGA.Sampling
