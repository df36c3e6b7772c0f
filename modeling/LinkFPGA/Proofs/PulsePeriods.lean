import Mathlib.Tactic.Linarith
import LinkFPGA.Firmware.Link
import LinkFPGA.Proofs.BeatGrid

/-!
# Which tempi the period registers can hold

`beat_pulse_load_timeline` casts five 64-bit values to 32 bits, and an output of `make_periodic`
returns low only if its period is longer than the pulse. `periods_hold_iff` says for which tempo
and which number of beats per bar all five registers and outputs come out right: a quotient by 96
above 1000 at the fast end, and a bar below `2 ^ 32` microseconds at the slow end. A period that is
too short leaves its output high for ever (`stuck_high`).
-/

namespace LinkFPGA

open Clocked

/-! ## Narrowing -/

/-- The cast of a product is the residue of the exact product. -/
theorem to_u32_mul (a b : Int64) : ((toU32 (a * b)).toNat : ℤ) = a.toInt * b.toInt % 2 ^ 32 := by
  have hmod : (a * b).toInt % 2 ^ 64 = a.toInt * b.toInt % 2 ^ 64 := by
    rw [Int64.toInt_mul]
    exact Int.bmod_emod
  rw [to_u32_emod]
  omega

/-! ## Pulses that do not end -/

namespace Periodic

variable {period : UInt32} {pulseWidth : UInt16}

/-- A period within the pulse width starts the next pulse before the last one is over: the output
goes high at the first tick and stays there. -/
theorem stuck_high (hpos : 1 ≤ period.toNat) (hle : period.toNat ≤ pulseWidth.toNat) (t : ℕ) :
    (after period pulseWidth (t + 1)).pulse = true ∧
      (after period pulseWidth (t + 1)).width.toNat = pulseWidth.toNat - t % period.toNat := by
  induction t with
  | zero =>
      rw [after_succ, tick_step_reload rfl, Nat.zero_mod]
      exact ⟨rfl, rfl⟩
  | succ t ih =>
      obtain ⟨hpulse, hwidth⟩ := ih
      have hmod := Nat.mod_lt t hpos
      have hreload := reloads_iff pulseWidth hpos (t + 1)
      rw [after_succ, succ_mod_eq hpos]
      by_cases hzero : (after period pulseWidth (t + 1)).cnt = 0
      · have hlast := succ_mod_eq hpos t
        rw [Nat.mod_eq_zero_of_dvd (hreload.mp hzero)] at hlast
        rw [tick_step_reload hzero, if_pos (by by_contra h; rw [if_neg h] at hlast; omega)]
        exact ⟨rfl, rfl⟩
      · have hmore : t % period.toNat ≠ period.toNat - 1 := by
          intro hlast
          have hnext := succ_mod_eq hpos t
          rw [if_pos hlast] at hnext
          exact hzero (hreload.mpr (Nat.dvd_of_mod_eq_zero hnext))
        rw [tick_step_count hzero, if_neg hmore]
        constructor
        · show (after period pulseWidth (t + 1)).toOneShot.elapse.pulse = true
          rw [OneShot.elapse_pulse, hpulse, hwidth, if_neg (by omega)]
        · show (after period pulseWidth (t + 1)).toOneShot.elapse.width.toNat = _
          rw [OneShot.elapse_width, hwidth]
          omega

end Periodic

/-! ## The five outputs -/

section Programmed

variable {ticksPerUs : ℕ} (s : PulseSoc ticksPerUs) (ghost : GhostRegs) (r : PulseRegs)
  (sFlags : UInt8) (sBeatsPerBar : Int32) (tl : Timeline) (ss : Startstop)

/-- The period of an output at `T` microseconds per beat, as an exact number. -/
def PulseOutput.exactPeriod (T beatsPerBar : ℤ) : PulseOutput → ℤ
  | clk24 => T / 24
  | clk48 => T / 48
  | clk96 => T / 96
  | beat => T
  | bar => T * beatsPerBar

/-- The output returns low and rises once per period, on the ticks `0, P, 2P, …`. -/
def Regular (regs : PulseSocRegs) (o : PulseOutput) : Prop :=
  ∀ k c, RisesFor (s.wave (fun _ ↦ regs) o) k c ↔
    s.tick c = true ∧ ticks s.tick c = k * (o.period regs.pulse).toNat

/-- What a load of the timeline is to do for an output: the exact period, longer than the pulse,
and a regular pulse train once the soft reset is taken back. -/
structure Programmed (o : PulseOutput) : Prop where
  exact : ((o.period (r.load sFlags sBeatsPerBar tl ss)).toNat : ℤ) =
    o.exactPeriod (loadedUsPerBeat tl).toInt sBeatsPerBar.toInt
  longer : r.pulseWidth.toNat < (o.period (r.load sFlags sBeatsPerBar tl ss)).toNat
  regular : Regular s ⟨ghost, r.released sFlags sBeatsPerBar tl ss⟩ o

/-- The tempo that is loaded is positive. -/
theorem loaded_us_per_beat_pos : 0 < (loadedUsPerBeat tl).toInt := by
  unfold loadedUsPerBeat
  split
  · decide
  · rename_i hpos
    rw [Int64.le_iff_toInt_le] at hpos
    exact not_le.mp hpos

/-- The quotient of a positive tempo, exactly. -/
theorem loaded_div_toInt (d : Int64) (k : ℕ) (hd : d.toInt = k) (hne : d ≠ -1) :
    (loadedUsPerBeat tl / d).toInt = (loadedUsPerBeat tl).toInt / k := by
  obtain ⟨m, hm⟩ := Int.eq_ofNat_of_zero_le (loaded_us_per_beat_pos tl).le
  rw [tempo_div_toInt hm d k hd hne, hm]
  exact Int.natCast_div m k

/-- What the registers hold: the exact periods, reduced to 32 bits. -/
theorem load_period (o : PulseOutput) :
    ((o.period (r.load sFlags sBeatsPerBar tl ss)).toNat : ℤ) =
      o.exactPeriod (loadedUsPerBeat tl).toInt sBeatsPerBar.toInt % 2 ^ 32 := by
  cases o with
  | clk24 =>
      show ((toU32 (loadedUsPerBeat tl / 24)).toNat : ℤ) = _
      rw [to_u32_emod, loaded_div_toInt tl 24 24 rfl (by decide)]
      rfl
  | clk48 =>
      show ((toU32 (loadedUsPerBeat tl / 48)).toNat : ℤ) = _
      rw [to_u32_emod, loaded_div_toInt tl 48 48 rfl (by decide)]
      rfl
  | clk96 =>
      show ((toU32 (loadedUsPerBeat tl / 96)).toNat : ℤ) = _
      rw [to_u32_emod, loaded_div_toInt tl 96 96 rfl (by decide)]
      rfl
  | beat => exact to_u32_emod (loadedUsPerBeat tl)
  | bar =>
      show ((toU32 (loadedUsPerBeat tl * sBeatsPerBar.toInt64)).toNat : ℤ) = _
      rw [to_u32_mul, Int32.toInt_toInt64]
      rfl

/-- All five outputs are right exactly when a tick of the 96 PPQN clock is longer than the pulse
of 1000 microseconds and a bar is positive and fits 32 bits. -/
theorem periods_hold_iff (hzero : ∀ o : PulseOutput, o.counter s.beatPulse = .zero)
    (hwidth : r.pulseWidth = 1000) :
    (∀ o, Programmed s ghost r sFlags sBeatsPerBar tl ss o) ↔
      1000 < (loadedUsPerBeat tl).toInt / 96 ∧ 1 ≤ sBeatsPerBar.toInt ∧
        (loadedUsPerBeat tl).toInt * sBeatsPerBar.toInt < 2 ^ 32 := by
  have hpos := loaded_us_per_beat_pos tl
  have hwidth' : r.pulseWidth.toNat = 1000 := by rw [hwidth]; rfl
  set T := (loadedUsPerBeat tl).toInt with hT
  set B := sBeatsPerBar.toInt with hB
  constructor
  · intro h
    have h96 := (h .clk96).longer
    have h96' : _ = T / 96 := (h .clk96).exact
    have hbar := (h .bar).longer
    have hbar' : _ = T * B := (h .bar).exact
    have hbits := (PulseOutput.period (r.load sFlags sBeatsPerBar tl ss) .bar).toNat_lt
    refine ⟨by omega, ?_, by omega⟩
    by_contra hB
    have hneg : T * B ≤ 0 := Int.mul_nonpos_of_nonneg_of_nonpos hpos.le (by omega)
    omega
  · rintro ⟨hfast, hbeats, hslow⟩ o
    have hT32 : T < 2 ^ 32 := lt_of_le_of_lt (le_mul_of_one_le_right hpos.le hbeats) hslow
    have hbar : T ≤ T * B := le_mul_of_one_le_right hpos.le hbeats
    have hexact : 0 ≤ o.exactPeriod T B ∧ o.exactPeriod T B < 2 ^ 32 ∧
        1000 < o.exactPeriod T B := by
      cases o <;> simp only [PulseOutput.exactPeriod] <;> omega
    have hperiod : ((o.period (r.load sFlags sBeatsPerBar tl ss)).toNat : ℤ) =
        o.exactPeriod T B := by
      rw [load_period, Int.emod_eq_of_lt hexact.1 hexact.2.1]
    have hlonger : r.pulseWidth.toNat < (o.period (r.load sFlags sBeatsPerBar tl ss)).toNat := by
      omega
    have hsame : o.period (r.released sFlags sBeatsPerBar tl ss) =
        o.period (r.load sFlags sBeatsPerBar tl ss) := by
      cases o <;> rfl
    refine ⟨hperiod, hlonger, fun k c ↦ ?_⟩
    refine rises_for_wave (r := ⟨ghost, r.released sFlags sBeatsPerBar tl ss⟩) s
      (released_rst r sFlags sBeatsPerBar ss) (hzero o) ?_ ?_ k c
    · show 1 ≤ r.pulseWidth.toNat
      omega
    · show r.pulseWidth.toNat < (o.period (r.released sFlags sBeatsPerBar tl ss)).toNat
      rw [hsame]
      exact hlonger

end Programmed

/-- At 120 BPM and four beats to a bar all is well. -/
theorem periods_hold_iff_120_bpm :
    Programmed quietSoc ⟨0, 0, 0⟩ .reset 0 4 timeline120 ⟨0, 0, 0⟩ .clk96 ∧
      Programmed quietSoc ⟨0, 0, 0⟩ .reset 0 4 timeline120 ⟨0, 0, 0⟩ .bar := by
  have hall := (periods_hold_iff quietSoc ⟨0, 0, 0⟩ .reset 0 4 timeline120 ⟨0, 0, 0⟩
    PulseOutput.counter_zero rfl).mpr (by decide)
  exact ⟨hall .clk96, hall .bar⟩

/-- At 999 BPM, which the web UI accepts, a tick of the 96 PPQN clock is 625 microseconds. -/
theorem clk96_too_fast_at_999_bpm :
    ¬ ∀ (bpm : Rat) (nowG : Int64) (tl : Timeline), 20 ≤ bpm → bpm ≤ 999 →
      ∀ o, Programmed quietSoc ⟨0, 0, 0⟩ .reset 0 4 (retimed bpm nowG tl) ⟨0, 0, 0⟩ o := by
  intro h
  have hlonger := (h 999 0 timeline120 (by norm_num) le_rfl .clk96).longer
  revert hlonger
  decide +kernel

end LinkFPGA
