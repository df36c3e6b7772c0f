import Mathlib.Algebra.Order.Field.Basic
import Mathlib.Algebra.Order.Group.Abs
import Mathlib.Tactic.Linarith
import Mathlib.Tactic.Ring
import LinkFPGA.Library.Runs

/-!
# Lines that are re-anchored

A quantity that grows at a rate is kept as a line through an anchor. To change the rate from some
time on, the line is turned there: the new one starts at the value that the old one has
(`Line.turn`). A machine that turns its line with an error of at most `δ` is, after `k` turns, at
most `k * δ` away from the exact one, at all times (`run_near`): between two turns both lines have
the same rate, so their distance does not grow.
-/

namespace LinkFPGA.Reanchor

open Runs

variable {K : Type*} [Field K]

structure Line (K : Type*) where
  time : K
  value : K
  rate : K

/-- The value at a time. -/
def Line.eval (l : Line K) (t : K) : K := l.value + (t - l.time) * l.rate

/-- The line that goes on from the value at `t` at another rate. -/
def Line.turn (l : Line K) (t rate : K) : Line K := ⟨t, l.eval t, rate⟩

/-- Lines with anchors at one time and with the same rate. -/
structure Parallel (l m : Line K) : Prop where
  time : l.time = m.time
  rate : l.rate = m.rate

omit [Field K] in
theorem Parallel.refl (l : Line K) : Parallel l l := ⟨rfl, rfl⟩

/-- Parallel lines keep their distance. -/
theorem Parallel.distance {l m : Line K} (h : Parallel l m) (t : K) :
    l.eval t - m.eval t = l.value - m.value := by
  rw [Line.eval, Line.eval, h.time, h.rate]
  ring

variable [LinearOrder K] [IsStrictOrderedRing K] {σ ε : Type*} {step : σ → ε → σ}
  {guard : σ → ε → Prop} {view : σ → Line K} {time rate : ε → K} {δ : K}

/-- A step turns the line of its state with an error of at most `δ`. -/
structure TurnsNear (view : σ → Line K) (time rate : ε → K) (δ : K) (s s' : σ) (e : ε) : Prop where
  anchored : (view s').time = time e
  turned : (view s').rate = rate e
  near : |(view s').value - (view s).eval (time e)| ≤ δ

/-- Each turn adds its error to the distance from the exact line. -/
theorem run_near (hstep : ∀ s e, guard s e → TurnsNear view time rate δ s (step s e) e) {s : σ}
    {l : Line K} {es : List ε} (h : Guarded step guard s es) (hl : Parallel (view s) l) (t : K) :
    |(view (run step s es)).eval t - (run (fun l e ↦ l.turn (time e) (rate e)) l es).eval t| ≤
      |(view s).value - l.value| + es.length * δ := by
  induction es generalizing s l with
  | nil => simp [hl.distance t]
  | cons e es ih =>
      have hturn := hstep s e h.1
      have hrest := ih (l := l.turn (time e) (rate e)) h.2 ⟨hturn.anchored, hturn.turned⟩
      have hvalue : |(view (step s e)).value - l.eval (time e)| ≤
          |(view s).value - l.value| + δ := by
        calc |(view (step s e)).value - l.eval (time e)|
            ≤ |(view (step s e)).value - (view s).eval (time e)| +
                |(view s).eval (time e) - l.eval (time e)| := abs_sub_le _ _ _
          _ ≤ δ + |(view s).value - l.value| :=
              add_le_add hturn.near (le_of_eq (congrArg _ (hl.distance _)))
          _ = |(view s).value - l.value| + δ := add_comm _ _
      rw [run_cons, run_cons, List.length_cons, Nat.cast_succ]
      calc _ ≤ |(view (step s e)).value - l.eval (time e)| + es.length * δ := hrest
        _ ≤ |(view s).value - l.value| + δ + es.length * δ := add_le_add_left hvalue _
        _ = |(view s).value - l.value| + (es.length + 1) * δ := by ring

end LinkFPGA.Reanchor
