import Mathlib.Data.Rat.Floor
import Mathlib.Tactic.Linarith
import LinkFPGA.Library.Sampling
import LinkFPGA.Proofs.TdmFrames

/-!
# The frame counter of a TDM16 core

`frame_pulse_audio` is high for one audio cycle a frame, and the synchroniser hands its level to
the `sys` domain, where `frame_cnt` is incremented in every cycle that sees it high. A frame
therefore adds as many to the counter as sys edges fall into one audio cycle. `frame_count_iff`
says when that is one; at twice the audio clock or more it never is (`fast_sys_adds_more`).

Read `frame_adds` first.
-/

namespace LinkFPGA

open Clocked Sampling

/-! ## The counter behind the synchroniser -/

namespace FrameCounter

variable (level : ℕ → Bool)

/-- The cycles that see the pulse. -/
def sees (m : ℕ) : Bool := (trace clk reset level m).framePulseSys

/-- The counter counts the cycles that see the pulse. -/
theorem frame_cnt_eq (n : ℕ) :
    (trace clk reset level n).frameCnt = .ofNat (ticks (sees level) n) := by
  induction n with
  | zero => rfl
  | succ n ih =>
      rw [trace_succ]
      show (if sees level n = true then _ else _ : UInt32) = _
      cases hpulse : sees level n with
      | true =>
          rw [ticks_succ_of_tick hpulse, UInt32.ofNat_add, ← ih]
          rfl
      | false =>
          rw [ticks_succ_of_idle hpulse]
          exact ih

/-- The cycles that see the pulse are the samples that were high, two cycles later. -/
theorem ticks_delayed (m : ℕ) :
    ticks (sees level) (m + 2) = ticks level m := by
  rw [ticks_add]
  rfl

end FrameCounter

/-- `frame_pulse_audio` in each audio cycle from power-on. -/
def framePulse (inp : ℕ → TdmIn) (n : ℕ) : Bool :=
  (trace TdmSerdes.clk .reset inp n).framePulseAudio

/-- The pulse comes every 512 cycles, with the end of each frame. -/
theorem frame_pulse_eq (inp : ℕ → TdmIn) (n : ℕ) :
    framePulse inp n = true ↔ 0 < n ∧ n % 512 = 0 := by
  have hfirst : (trace TdmSerdes.clk .reset inp 1).AtFrameStart := ⟨rfl, rfl, rfl⟩
  rcases n with _ | _ | n
  · exact iff_of_false Bool.false_ne_true (by omega)
  · exact iff_of_false Bool.false_ne_true (by omega)
  · have hpulse := TdmSerdes.frame_pulse_iff hfirst (fun n ↦ inp (1 + n)) n
    rw [← trace_add, show 1 + (n + 1) = n + 1 + 1 by omega] at hpulse
    rw [framePulse, hpulse]
    omega

/-! ## Frames counted -/

section

variable {K : Type*} [Field K]

/-- The time at which the pulse of frame `f` starts, for an audio clock of period `Ta`; it is one
audio cycle long. -/
def pulseStart (Ta : K) (f : ℕ) : K := (512 * (f + 1) : ℕ) * Ta

theorem pulse_start_succ (Ta : K) (f : ℕ) : pulseStart Ta (f + 1) = pulseStart Ta f + 512 * Ta := by
  unfold pulseStart
  push_cast
  ring

theorem pulse_end (Ta : K) (f : ℕ) : pulseStart Ta f + Ta = (512 * (f + 1) + 1 : ℕ) * Ta := by
  unfold pulseStart
  push_cast
  ring

variable [LinearOrder K]

theorem pulse_start_nonneg [IsStrictOrderedRing K] {Ta : K} (hTa : 0 < Ta) (f : ℕ) :
    0 ≤ pulseStart Ta f :=
  mul_nonneg (Nat.cast_nonneg _) hTa.le

variable [FloorSemiring K]

/-- The frame counter after `m` edges of the sys clock. -/
def counterRun (sys : ClockAt K) (Ta : K) (inp : ℕ → TdmIn) (m : ℕ) : FrameCounter :=
  trace FrameCounter.clk .reset (sample sys Ta (framePulse inp)) m

/-- The sys edge at which the counter has taken in the frames before `f` and not yet `f`: the
first one of its pulse, and the two that the synchroniser takes. -/
def takenIn (sys : ClockAt K) (Ta : K) (f : ℕ) : ℕ := sys.before (pulseStart Ta f) + 2

/-- How often the frames before `f` have incremented the counter. -/
def increments (sys : ClockAt K) (Ta : K) (inp : ℕ → TdmIn) (f : ℕ) : ℕ :=
  ticks (fun m ↦ (counterRun sys Ta inp m).framePulseSys) (takenIn sys Ta f)

theorem increments_eq (sys : ClockAt K) (Ta : K) (inp : ℕ → TdmIn) (f : ℕ) :
    increments sys Ta inp f =
      ticks (sample sys Ta (framePulse inp)) (sys.before (pulseStart Ta f)) :=
  FrameCounter.ticks_delayed _ _

/-- The second sys edge from the start of the pulse of frame `f` on is not before its end. -/
def OneEdge (sys : ClockAt K) (Ta : K) (f : ℕ) : Prop :=
  pulseStart Ta f + Ta ≤ sys.edge (sys.before (pulseStart Ta f) + 1)

variable [IsStrictOrderedRing K] {sys : ClockAt K} {Ta : K}

/-- The sys edges inside a pulse see it. -/
theorem level_high (hTa : 0 < Ta) (inp : ℕ → TdmIn) {f m : ℕ}
    (hstart : sys.before (pulseStart Ta f) ≤ m) (hend : m < sys.before (pulseStart Ta f + Ta)) :
    sample sys Ta (framePulse inp) m = true := by
  have hge : 512 * (f + 1) ≤ sys.stateAt Ta m :=
    (sys.le_state_at_iff hTa m _).mpr ((sys.before_le_iff m _).mp hstart)
  have hlt : ¬ 512 * (f + 1) + 1 ≤ sys.stateAt Ta m := by
    rw [sys.le_state_at_iff hTa, not_le, ← pulse_end]
    exact (sys.lt_before_iff m _).mp hend
  rw [sample, frame_pulse_eq]
  omega

/-- The sys edges behind a pulse and before the next one do not. -/
theorem level_low (hTa : 0 < Ta) (inp : ℕ → TdmIn) {f m : ℕ}
    (hend : sys.before (pulseStart Ta f + Ta) ≤ m)
    (hnext : m < sys.before (pulseStart Ta (f + 1))) :
    sample sys Ta (framePulse inp) m = false := by
  have hge : 512 * (f + 1) + 1 ≤ sys.stateAt Ta m := by
    rw [sys.le_state_at_iff hTa, ← pulse_end]
    exact (sys.before_le_iff m _).mp hend
  have hlt : ¬ 512 * (f + 1 + 1) ≤ sys.stateAt Ta m := by
    rw [sys.le_state_at_iff hTa, not_le]
    exact (sys.lt_before_iff m _).mp hnext
  rw [sample, ← Bool.not_eq_true, frame_pulse_eq]
  omega

/-- Before the first frame has ended there is no pulse. -/
theorem level_quiet (hTa : 0 < Ta) (inp : ℕ → TdmIn) {m : ℕ}
    (hfirst : m < sys.before (pulseStart Ta 0)) : sample sys Ta (framePulse inp) m = false := by
  have hlt : ¬ 512 * (0 + 1) ≤ sys.stateAt Ta m := by
    rw [sys.le_state_at_iff hTa, not_le]
    exact (sys.lt_before_iff m _).mp hfirst
  rw [sample, ← Bool.not_eq_true, frame_pulse_eq]
  omega

theorem increments_zero (hTa : 0 < Ta) (inp : ℕ → TdmIn) : increments sys Ta inp 0 = 0 := by
  rw [increments_eq, ticks_window (Nat.zero_le 0) (Nat.zero_le _)
    (fun m _ hm ↦ absurd hm (Nat.not_lt_zero m)) fun m _ hm ↦ level_quiet hTa inp hm]
  rfl

/-- A frame adds as many as sys edges fall into its pulse. -/
theorem frame_adds (hTa : 0 < Ta) (inp : ℕ → TdmIn) (f : ℕ) :
    increments sys Ta inp (f + 1) = increments sys Ta inp f +
      (sys.before (pulseStart Ta f + Ta) - sys.before (pulseStart Ta f)) := by
  have hnext : pulseStart Ta f + Ta ≤ pulseStart Ta (f + 1) := by
    rw [pulse_start_succ]
    linarith
  rw [increments_eq, increments_eq]
  exact ticks_window (sys.before_mono (by linarith)) (sys.before_mono hnext)
    (fun m hm hlt ↦ level_high hTa inp hm hlt) fun m hm hlt ↦ level_low hTa inp hm hlt

/-- One frame, on a sys clock that is not slower than the audio clock. -/
theorem frame_adds_one_iff (hTa : 0 < Ta) (hfast : sys.period ≤ Ta) (inp : ℕ → TdmIn) (f : ℕ) :
    increments sys Ta inp (f + 1) = increments sys Ta inp f + 1 ↔ OneEdge sys Ta f := by
  have hsome := sys.before_lt_before (pulse_start_nonneg hTa f) hfast
  rw [frame_adds hTa, OneEdge, ← sys.before_le_iff]
  omega

/-- Every frame increments `frame_count` by exactly one where its pulse contains exactly one sys
edge, and only there; after a run of such frames the counter says how many there were. -/
theorem frame_count_iff (sys : ClockAt K) {Ta : K} (hTa : 0 < Ta) (hfast : sys.period ≤ Ta)
    (inp : ℕ → TdmIn) (f : ℕ) :
    (increments sys Ta inp (f + 1) = increments sys Ta inp f + 1 ↔ OneEdge sys Ta f) ∧
      ((∀ g < f, OneEdge sys Ta g) →
        (counterRun sys Ta inp (takenIn sys Ta f)).frameCnt = .ofNat f) := by
  refine ⟨frame_adds_one_iff hTa hfast inp f, fun hone ↦ ?_⟩
  have hcount : increments sys Ta inp f = f := by
    induction f with
    | zero => exact increments_zero hTa inp
    | succ f ih =>
        rw [(frame_adds_one_iff hTa hfast inp f).mpr (hone f (Nat.lt_succ_self f)),
          ih fun g hg ↦ hone g (by omega)]
  rw [counterRun, FrameCounter.frame_cnt_eq]
  exact congrArg UInt32.ofNat hcount

/-- At twice the audio clock every frame adds two or more. -/
theorem fast_sys_adds_more (hTa : 0 < Ta) (hfast : 2 * sys.period ≤ Ta) (f : ℕ) :
    ¬ OneEdge sys Ta f := by
  have hfirst := sys.next_edge_lt (pulse_start_nonneg hTa f)
  rw [OneEdge, not_le, sys.edge_succ]
  linarith

/-- Clocks of one period count every frame once, whatever their phases. -/
theorem equal_periods_one_edge (h : sys.period = Ta) (f : ℕ) : OneEdge sys Ta f := by
  have hfirst := (sys.before_le_iff _ (pulseStart Ta f)).mp le_rfl
  rw [OneEdge, sys.edge_succ, h]
  linarith

/-- The phase at which an edge falls on `t`. -/
def edgeAt (Ts t : K) (hTs : 0 < Ts) (ht : 0 ≤ t) : ClockAt K where
  period := Ts
  phase := t - ⌊t / Ts⌋₊ * Ts
  period_pos := hTs
  phase_nonneg := sub_nonneg.mpr ((le_div_iff₀ hTs).mp (Nat.floor_le (div_nonneg ht hTs.le)))
  phase_lt := by
    have hnext := (div_lt_iff₀ hTs).mp (Nat.lt_floor_add_one (t / Ts))
    linarith

theorem edge_at_edge (Ts t : K) (hTs : 0 < Ts) (ht : 0 ≤ t) :
    (edgeAt Ts t hTs ht).edge ⌊t / Ts⌋₊ = t := by
  show t - ⌊t / Ts⌋₊ * Ts + ⌊t / Ts⌋₊ * Ts = t
  ring

/-- Of two clock periods only equal ones count every frame once at every phase. -/
theorem every_phase_one_edge_iff {Ts : K} (hTs : 0 < Ts) (hTa : 0 < Ta) (hfast : Ts ≤ Ta) :
    (∀ sys : ClockAt K, sys.period = Ts → ∀ f, OneEdge sys Ta f) ↔ Ts = Ta := by
  constructor
  · intro hone
    have hstart := pulse_start_nonneg hTa 0
    have hedge := edge_at_edge Ts (pulseStart Ta 0) hTs hstart
    have hfirst : (edgeAt Ts (pulseStart Ta 0) hTs hstart).before (pulseStart Ta 0) ≤
        ⌊pulseStart Ta 0 / Ts⌋₊ := (ClockAt.before_le_iff _ _ _).mpr hedge.ge
    have hlast := hone (edgeAt Ts (pulseStart Ta 0) hTs hstart) rfl 0
    rw [OneEdge, ← ClockAt.before_le_iff] at hlast
    have hend := (ClockAt.before_le_iff _ _ _).mp (hlast.trans (Nat.add_le_add_right hfirst 1))
    rw [ClockAt.edge_succ, hedge] at hend
    exact hfast.antisymm (le_of_add_le_add_left hend)
  · rintro rfl sys hperiod f
    exact equal_periods_one_edge hperiod f

end

/-- A sys clock of the given period whose first edge comes after half of it. -/
def halfway (period : ℚ) (h : 0 < period) : ClockAt ℚ :=
  ⟨period, period / 2, h, (half_pos h).le, half_lt_self h⟩

theorem frame_count_iff_equal_periods :
    (counterRun (halfway 1 one_pos) 1 (fun _ ↦ ⟨.replicate 16 0, false⟩)
      (takenIn (halfway 1 one_pos) 1 3)).frameCnt = 3 :=
  (frame_count_iff (halfway 1 one_pos) one_pos le_rfl _ 3).2 fun g _ ↦ equal_periods_one_edge rfl g

/-- A sys clock of 75 MHz and an audio clock of 24.576 MHz. -/
theorem first_frame_adds_more :
    ¬ increments (halfway (1 / 75000000) (by norm_num)) (1 / 24576000)
        (fun _ ↦ ⟨.replicate 16 0, false⟩) 1 =
      increments (halfway (1 / 75000000) (by norm_num)) (1 / 24576000)
        (fun _ ↦ ⟨.replicate 16 0, false⟩) 0 + 1 := by
  have hTa : (0 : ℚ) < 1 / 24576000 := by norm_num
  have hperiod : (halfway (1 / 75000000) (by norm_num)).period = 1 / 75000000 := rfl
  rw [frame_adds_one_iff hTa (by rw [hperiod]; norm_num)]
  exact fast_sys_adds_more hTa (by rw [hperiod]; norm_num) 0

end LinkFPGA
