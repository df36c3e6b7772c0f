import LinkFPGA.Gateware.BeatPulse

/-!
# The pulse trains of `make_periodic`

From zeroed counters an output with period `P` reloads on the ticks `0, P, 2P, …`, and a pulse
width `W` between `1` and `P - 1` makes these ticks its rising edges. `Periodic` is clocked on ticks
only, so this is proved tick by tick (`shot_after`, `rises_after_iff`) and read back per clock
cycle: the output is a `PulseTrain` (`make_periodic_train`), and so are the five outputs in the
system (`wave_train`). The last part is about what the load of a timeline leaves the outputs to do
while its soft reset stays asserted.
-/

namespace LinkFPGA

open Clocked

namespace OneShot

/-- The width counts down to zero and stays there. -/
theorem elapse_width (s : OneShot) : s.elapse.width.toNat = s.width.toNat - 1 := by
  unfold elapse
  by_cases hw : s.width = 0
  · rw [if_neg (not_not.mpr hw), hw]
    rfl
  · have hpos : (1 : UInt16).toNat ≤ s.width.toNat :=
      Nat.one_le_iff_ne_zero.mpr fun h ↦ hw (UInt16.toNat_inj.mp h)
    rw [if_pos hw]
    exact UInt16.toNat_sub_of_le _ _ hpos

/-- The pulse ends on the tick that finds a width of one. -/
theorem elapse_pulse (s : OneShot) :
    s.elapse.pulse = if s.width.toNat = 1 then false else s.pulse := by
  have hone : s.width = 1 ↔ s.width.toNat = 1 := UInt16.toNat_inj.symm
  unfold elapse
  by_cases hw : s.width = 0
  · rw [if_neg (not_not.mpr hw), hw]
    rfl
  · rw [if_pos hw]
    show (if s.width = 1 then false else s.pulse) = _
    rw [ite_congr (propext hone) (fun _ ↦ rfl) fun _ ↦ rfl]

end OneShot

namespace Periodic

/-- A tick with the reset released. -/
def tickStep (period : UInt32) (pulseWidth : UInt16) (s : Periodic) : Periodic :=
  s.clk false true period pulseWidth

/-- The registers `t` ticks after a reset. -/
def after (period : UInt32) (pulseWidth : UInt16) (t : ℕ) : Periodic :=
  (tickStep period pulseWidth)^[t] zero

variable {period : UInt32} {pulseWidth : UInt16}

theorem after_succ (period : UInt32) (pulseWidth : UInt16) (t : ℕ) :
    after period pulseWidth (t + 1) = tickStep period pulseWidth (after period pulseWidth t) :=
  Function.iterate_succ_apply' _ _ _

theorem tick_step_reload {s : Periodic} (h : s.cnt = 0) :
    tickStep period pulseWidth s = { OneShot.fire pulseWidth with cnt := period - 1 } := by
  simp [tickStep, clk, h]

theorem tick_step_count {s : Periodic} (h : s.cnt ≠ 0) :
    tickStep period pulseWidth s = { s.toOneShot.elapse with cnt := s.cnt - 1 } := by
  simp [tickStep, clk, h]

/-- The down-counter counts the ticks since the last reload. -/
theorem cnt_after (pulseWidth : UInt16) (hP : 0 < period.toNat) (t : ℕ) :
    (after period pulseWidth (t + 1)).cnt.toNat = period.toNat - 1 - t % period.toNat := by
  have hone : (1 : UInt32).toNat ≤ period.toNat := hP
  induction t with
  | zero =>
      show (tickStep period pulseWidth zero).cnt.toNat = _
      rw [tick_step_reload rfl, Nat.zero_mod]
      exact UInt32.toNat_sub_of_le _ _ hone
  | succ t ih =>
      have hlt := Nat.mod_lt t hP
      rw [after_succ, succ_mod_eq hP]
      by_cases hzero : (after period pulseWidth (t + 1)).cnt = 0
      · have hlast : t % period.toNat = period.toNat - 1 := by
          rw [hzero] at ih
          have hz : (0 : UInt32).toNat = 0 := rfl
          omega
        rw [tick_step_reload hzero, if_pos hlast]
        exact UInt32.toNat_sub_of_le _ _ hone
      · have hpos : 0 < (after period pulseWidth (t + 1)).cnt.toNat := by
          apply Nat.pos_of_ne_zero
          intro h
          exact hzero (UInt32.toNat_inj.mp h)
        rw [tick_step_count hzero, if_neg (by omega)]
        show ((after period pulseWidth (t + 1)).cnt - 1).toNat = _
        rw [UInt32.toNat_sub_of_le _ _ hpos, ih]
        show _ - 1 = _
        omega

/-- The output reloads exactly on the multiples of its period. -/
theorem reloads_iff (pulseWidth : UInt16) (hP : 0 < period.toNat) (t : ℕ) :
    (after period pulseWidth t).cnt = 0 ↔ period.toNat ∣ t := by
  cases t with
  | zero => simp [after, zero]
  | succ t =>
      have hcnt := cnt_after pulseWidth hP t
      have hlt := Nat.mod_lt t hP
      have hsucc := succ_mod_eq hP t
      rw [← UInt32.toNat_inj, hcnt, Nat.dvd_iff_mod_eq_zero, hsucc]
      show _ = 0 ↔ _
      split <;> omega

/-- Only a reload starts a pulse. -/
theorem dvd_of_rises (hP : 0 < period.toNat) {t : ℕ}
    (h : Rises (fun t ↦ (after period pulseWidth t).pulse) t) : period.toNat ∣ t := by
  rw [← reloads_iff pulseWidth hP]
  by_contra hnot
  have hlow : (after period pulseWidth t).pulse = false := h.1
  have hhigh : (after period pulseWidth (t + 1)).pulse = true := h.2
  rw [after_succ, tick_step_count hnot] at hhigh
  have helapse := OneShot.elapse_pulse (after period pulseWidth t).toOneShot
  rw [hlow, ite_self] at helapse
  exact absurd hhigh (by simp [helapse])

/-- The first tick after a reset is a rising edge. -/
theorem rises_first : Rises (fun t ↦ (after period pulseWidth t).pulse) 0 := by
  refine ⟨rfl, ?_⟩
  show (tickStep period pulseWidth zero).pulse = true
  rw [tick_step_reload rfl]
  rfl

/-- With a pulse shorter than the period, the pulse has `pulse_width` ticks less those since the
last reload to go. -/
theorem shot_after (hpos : 1 ≤ pulseWidth.toNat) (hlt : pulseWidth.toNat < period.toNat) (t : ℕ) :
    (after period pulseWidth (t + 1)).pulse = decide (t % period.toNat < pulseWidth.toNat) ∧
      (after period pulseWidth (t + 1)).width.toNat = pulseWidth.toNat - t % period.toNat := by
  have hP : 0 < period.toNat := by omega
  induction t with
  | zero =>
      rw [after_succ, tick_step_reload rfl, Nat.zero_mod]
      exact ⟨(decide_eq_true hpos).symm, rfl⟩
  | succ t ih =>
      have hmod := Nat.mod_lt t hP
      have hcnt := cnt_after pulseWidth hP t
      rw [after_succ, succ_mod_eq hP]
      by_cases hzero : (after period pulseWidth (t + 1)).cnt = 0
      · have hlast : t % period.toNat = period.toNat - 1 := by
          rw [hzero] at hcnt
          have hz : (0 : UInt32).toNat = 0 := rfl
          omega
        rw [tick_step_reload hzero, if_pos hlast]
        exact ⟨(decide_eq_true hpos).symm, rfl⟩
      · have hmore : t % period.toNat ≠ period.toNat - 1 := by
          intro hlast
          exact hzero (UInt32.toNat_inj.mp (by rw [hcnt, hlast, Nat.sub_self]; rfl))
        rw [tick_step_count hzero, if_neg hmore]
        obtain ⟨hpulse, hwidth⟩ := ih
        constructor
        · show (after period pulseWidth (t + 1)).toOneShot.elapse.pulse = _
          rw [OneShot.elapse_pulse, hpulse, hwidth]
          split
          · exact (decide_eq_false (by omega)).symm
          · exact decide_eq_decide.mpr (by omega)
        · show (after period pulseWidth (t + 1)).toOneShot.elapse.width.toNat = _
          rw [OneShot.elapse_width, hwidth]
          omega

/-- An output with a pulse shorter than its period rises on the multiples of the period and at no
other tick. -/
theorem rises_after_iff (hpos : 1 ≤ pulseWidth.toNat) (hlt : pulseWidth.toNat < period.toNat)
    (t : ℕ) : Rises (fun t ↦ (after period pulseWidth t).pulse) t ↔ period.toNat ∣ t := by
  refine rises_of_level hpos hlt ?_ ?_ t
  · rfl
  · exact fun t ↦ (shot_after hpos hlt t).1

/-- A wire that is high when such an output is, tick by tick, is a train of its pulses. -/
theorem train_after (hpos : 1 ≤ pulseWidth.toNat) (hlt : pulseWidth.toNat < period.toNat)
    {tick w : ℕ → Bool} (hw : ∀ n, w n = (after period pulseWidth (ticks tick n)).pulse) :
    PulseTrain period.toNat pulseWidth.toNat tick w := by
  refine pulse_train_enabled (v := fun t ↦ (after period pulseWidth t).pulse) hpos hlt hw ?_ ?_
  · rfl
  · exact fun t ↦ (shot_after hpos hlt t).1

/-- With the reset released, `make_periodic` has taken one step for every tick. -/
theorem trace_released (period : UInt32) (pulseWidth : UInt16) (tick : ℕ → Bool) (n : ℕ) :
    trace (fun s t ↦ clk false t period pulseWidth s) zero tick n =
      after period pulseWidth (ticks tick n) :=
  trace_enabled (fun _ ↦ rfl) zero tick n

/-- From the reset state, with a pulse width between 1 and its period, `make_periodic` puts out a
pulse at tick `n * P` for every `n`, high for `W` ticks and low for the other `P - W`. -/
theorem make_periodic_train (period : UInt32) (pulseWidth : UInt16) (hpos : 1 ≤ pulseWidth.toNat)
    (hlt : pulseWidth.toNat < period.toNat) (tick : ℕ → Bool) :
    PulseTrain period.toNat pulseWidth.toNat tick fun n ↦
      (trace (fun s t ↦ clk false t period pulseWidth s) zero tick n).pulse :=
  train_after hpos hlt fun n ↦ congrArg (·.pulse) (trace_released period pulseWidth tick n)

/-- The clear and the reload on adjacent ticks. -/
theorem make_periodic_train_adjacent :
    PulseTrain 3 2 (fun n ↦ decide (n % 2 = 1)) fun n ↦
      (trace (fun s t ↦ clk false t 3 2 s) zero (fun n ↦ decide (n % 2 = 1)) n).pulse :=
  make_periodic_train 3 2 (by decide) (by decide) _

end Periodic

namespace PulseSoc

variable {ticksPerUs : ℕ}

theorem trace_ghost_time (s : PulseSoc ticksPerUs) (r : ℕ → PulseSocRegs) (n : ℕ) :
    (trace clk s r n).ghostTime = trace GhostTimeUnit.clk s.ghostTime (fun i ↦ (r i).ghost) n := by
  induction n with
  | zero => rfl
  | succ n ih => rw [trace_succ, trace_succ, clk, ih]

/-- The tick the generator sees in each cycle. -/
theorem trace_tick (s : PulseSoc ticksPerUs) (r : ℕ → PulseSocRegs) (n : ℕ) :
    (trace clk s r n).ghostTime.gen.tickUs = s.tick n := by
  rw [trace_ghost_time, GhostTimeUnit.trace_gen]
  rfl

/-- The microsecond tick never stops. -/
theorem tick_live (s : PulseSoc ticksPerUs) (n : ℕ) : ∃ m, n ≤ m ∧ s.tick m = true :=
  s.ghostTime.gen.wave_live n

/-- With the registers left alone and the reset released, a zeroed output has taken one step for
every tick. -/
theorem wave_eq (s : PulseSoc ticksPerUs) {r : PulseSocRegs} (hrst : r.pulse.rst = false)
    {o : PulseOutput} (hzero : o.counter s.beatPulse = .zero) (n : ℕ) :
    s.wave (fun _ ↦ r) o n =
      (Periodic.after (o.period r.pulse) r.pulse.pulseWidth (ticks s.tick n)).pulse := by
  have hcounter : o.counter (trace clk s (fun _ ↦ r) n).beatPulse =
      trace (fun p tick ↦ Periodic.clk false tick (o.period r.pulse) r.pulse.pulseWidth p)
        .zero s.tick n := by
    induction n with
    | zero => exact hzero
    | succ n ih =>
        rw [trace_succ, trace_succ, ← ih, clk, trace_tick, PulseOutput.counter_clk, hrst]
  rw [wave, hcounter, Periodic.trace_released]

/-- So each of the five outputs is a train of its pulses. -/
theorem wave_train (s : PulseSoc ticksPerUs) {r : PulseSocRegs} {o : PulseOutput}
    (hrst : r.pulse.rst = false) (hzero : o.counter s.beatPulse = .zero)
    (hpos : 1 ≤ r.pulse.pulseWidth.toNat)
    (hlt : r.pulse.pulseWidth.toNat < (o.period r.pulse).toNat) :
    PulseTrain (o.period r.pulse).toNat r.pulse.pulseWidth.toNat s.tick (s.wave (fun _ ↦ r) o) :=
  Periodic.train_after hpos hlt (s.wave_eq hrst hzero)

/-- While the reset is asserted the outputs are low from the next cycle on. -/
theorem wave_reset (s : PulseSoc ticksPerUs) {r : PulseSocRegs} (hrst : r.pulse.rst = true)
    (o : PulseOutput) (n : ℕ) : s.wave (fun _ ↦ r) o (n + 1) = false := by
  rw [wave, trace_succ, clk, PulseOutput.counter_clk, hrst]
  rfl

end PulseSoc

section Restart

/-- The registers once `beat_pulse_load_timeline` has written them. -/
def PulseRegs.load (r : PulseRegs) (sFlags : UInt8) (sBeatsPerBar : Int32) (tl : Timeline)
    (ss : Startstop) : PulseRegs :=
  r.writes (beatPulseLoadTimeline sFlags sBeatsPerBar tl ss)

variable (r : PulseRegs) (sFlags : UInt8) (sBeatsPerBar : Int32) (tl : Timeline) (ss : Startstop)

/-- No write follows the one that asserts the soft reset. -/
theorem load_rst : (r.load sFlags sBeatsPerBar tl ss).rst = true := by
  show decide ((1 : UInt8) &&& 1 = 1) = true
  rfl

/-- The wire goes up at the first tick and again every `P` ticks. -/
def RisesEvery (P : ℕ) (tick w : ℕ → Bool) : Prop :=
  ∀ c, tick c = true → P ∣ ticks tick c → Rises w c

/-- After a load the outputs start again as documented only where that says nothing: every
programmed period is within the pulse width. -/
theorem restart_iff {ticksPerUs : ℕ} (s : PulseSoc ticksPerUs) (ghost : GhostRegs) :
    let loaded : PulseSocRegs := ⟨ghost, r.load sFlags sBeatsPerBar tl ss⟩
    (∀ o : PulseOutput, r.pulseWidth.toNat < (o.period loaded.pulse).toNat →
      RisesEvery (o.period loaded.pulse).toNat s.tick (s.wave (fun _ ↦ loaded) o)) ↔
    ∀ o : PulseOutput, (o.period loaded.pulse).toNat ≤ r.pulseWidth.toNat := by
  intro loaded
  constructor
  · intro hrestart o
    by_contra hlonger
    -- The first tick should raise the output, but the reset that is never released holds it low.
    obtain ⟨c, htick, hfirst⟩ := exists_tick_at s.tick_live 0
    have hrise := hrestart o (by omega) c htick (by rw [hfirst]; exact Nat.dvd_zero _)
    have hlow := s.wave_reset (r := loaded) (load_rst r sFlags sBeatsPerBar tl ss) o c
    exact absurd hrise.2 (by simp [hlow])
  · intro hshort o hlonger
    exact absurd (hshort o) (by omega)

/-- The session default of 120 BPM. -/
def timeline120 : Timeline := ⟨500000, 0, 0⟩

/-- A 50 MHz system one cycle before a tick, its outputs zeroed. -/
def quietSoc : PulseSoc 50 where
  ghostTime := { gen := { tickCnt := 49, tickUs := false }, host := ⟨0, 0, 0⟩ }
  beatPulse := .zero

/-- At 120 BPM and with 1 ms pulses the beat output does not rise on the first tick. -/
theorem soft_reset_holds_outputs :
    ¬ ∀ o : PulseOutput,
      PulseRegs.reset.pulseWidth.toNat <
        (o.period (PulseRegs.reset.load 0 4 timeline120 ⟨0, 0, 0⟩)).toNat →
      RisesEvery (o.period (PulseRegs.reset.load 0 4 timeline120 ⟨0, 0, 0⟩)).toNat quietSoc.tick
        (quietSoc.wave (fun _ ↦ ⟨⟨0, 0, 0⟩, PulseRegs.reset.load 0 4 timeline120 ⟨0, 0, 0⟩⟩) o) :=
  fun h ↦ absurd (h .beat (by decide) 1 (by decide) (by decide)).2 (by decide)

end Restart

end LinkFPGA
