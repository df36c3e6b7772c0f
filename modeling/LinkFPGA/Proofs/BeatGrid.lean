import Mathlib.Algebra.Order.Field.Rat
import Mathlib.Tactic.FieldSimp
import Mathlib.Tactic.Linarith
import Mathlib.Tactic.Ring
import LinkFPGA.Proofs.PulseTrain

/-!
# The clock outputs against the beat

What the period registers hold for a tempo of `T` microseconds per beat, and what follows for the
pulse trains once the reset is released: how far the 24, 48 and 96 PPQN clocks drift from the beat
output, and where the beat output stands on the beats of the timeline that was loaded.
-/

namespace LinkFPGA

open Clocked

section Periods

/-- The cast to 32 bits keeps the residue. -/
theorem to_u32_emod (v : Int64) : ((toU32 v).toNat : ℤ) = v.toInt % 2 ^ 32 := by
  have hint : v.toInt % 2 ^ 64 = (v.toUInt64.toNat : ℤ) % 2 ^ 64 := by
    rw [Int64.toInt, BitVec.toInt_eq_toNat_bmod]
    exact Int.bmod_emod
  have hlt := v.toUInt64.toNat_lt
  show ((v.toUInt64.toUInt32).toNat : ℤ) = _
  rw [UInt64.toNat_toUInt32]
  omega

/-- A non-negative value below `2 ^ 32` survives the narrowing. -/
theorem to_u32_toNat {v : Int64} {m : ℕ} (hv : v.toInt = m) (hm : m < 2 ^ 32) :
    (toU32 v).toNat = m := by
  have hmod := to_u32_emod v
  omega

/-- Dividing a non-negative tempo. -/
theorem tempo_div_toInt {v : Int64} {m : ℕ} (hv : v.toInt = m) (d : Int64) (k : ℕ)
    (hd : d.toInt = k) (hk : d ≠ -1) : (v / d).toInt = (m / k : ℕ) := by
  rw [Int64.toInt_div_of_ne_right _ _ hk, hv, hd]
  exact (Int.ofNat_tdiv m k).symm

variable {tl : Timeline} {T : ℕ} (r : PulseRegs) (sFlags : UInt8) (sBeatsPerBar : Int32)
  (ss : Startstop)

/-- The registers a load leaves behind once its soft reset has been taken back. -/
def PulseRegs.released (r : PulseRegs) (sFlags : UInt8) (sBeatsPerBar : Int32) (tl : Timeline)
    (ss : Startstop) : PulseRegs :=
  (r.load sFlags sBeatsPerBar tl ss).write (.softReset 0)

theorem released_rst : (r.released sFlags sBeatsPerBar tl ss).rst = false := by
  show decide ((0 : UInt8) &&& 1 = 1) = false
  rfl

theorem loaded_us_per_beat (hT : tl.tempoUsPerBeat.toInt = T) (hpos : 0 < T) :
    loadedUsPerBeat tl = tl.tempoUsPerBeat := by
  rw [loadedUsPerBeat, if_neg]
  rw [Int64.le_iff_toInt_le, hT]
  show ¬ ((T : ℤ) ≤ 0)
  omega

/-- The beat register holds the tempo, each clock register its quotient rounded down. -/
theorem released_periods (hT : tl.tempoUsPerBeat.toInt = T) (hpos : 0 < T) (hlt : T < 2 ^ 32) :
    (PulseOutput.period (r.released sFlags sBeatsPerBar tl ss) .beat).toNat = T ∧
      (PulseOutput.period (r.released sFlags sBeatsPerBar tl ss) .clk24).toNat = T / 24 ∧
      (PulseOutput.period (r.released sFlags sBeatsPerBar tl ss) .clk48).toNat = T / 48 ∧
      (PulseOutput.period (r.released sFlags sBeatsPerBar tl ss) .clk96).toNat = T / 96 := by
  have hbeat := loaded_us_per_beat hT hpos
  have hquot : ∀ (d : Int64) (k : ℕ), d.toInt = k → d ≠ -1 →
      (toU32 (loadedUsPerBeat tl / d)).toNat = T / k := by
    intro d k hd hne
    rw [hbeat]
    exact to_u32_toNat (tempo_div_toInt hT d k hd hne)
      (lt_of_le_of_lt (Nat.div_le_self T k) hlt)
  refine ⟨?_, hquot 24 24 rfl (by decide), hquot 48 48 rfl (by decide),
    hquot 96 96 rfl (by decide)⟩
  show (toU32 (loadedUsPerBeat tl)).toNat = T
  rw [hbeat]
  exact to_u32_toNat hT hlt

end Periods

section Drift

variable {ticksPerUs : ℕ}

/-- The `k`-th rise of a released output with a short pulse is on tick `k * P`. -/
theorem rises_for_wave (s : PulseSoc ticksPerUs) {r : PulseSocRegs} {o : PulseOutput}
    (hrst : r.pulse.rst = false) (hzero : o.counter s.beatPulse = .zero)
    (hpos : 1 ≤ r.pulse.pulseWidth.toNat)
    (hshort : r.pulse.pulseWidth.toNat < (o.period r.pulse).toNat) (k c : ℕ) :
    RisesFor (s.wave (fun _ ↦ r) o) k c ↔
      s.tick c = true ∧ ticks s.tick c = k * (o.period r.pulse).toNat :=
  (s.wave_train hrst hzero hpos hshort).rises k c

/-- The `k`-th beat and the `D * k`-th pulse of a clock are at most `D` ticks apart. -/
def InStep (tick beat clock : ℕ → Bool) (D k : ℕ) : Prop :=
  ∃ c d, RisesFor beat k c ∧ RisesFor clock (D * k) d ∧
    ticks tick c ≤ ticks tick d + D ∧ ticks tick d ≤ ticks tick c + D

/-- The three clock outputs keep to the beat for any number of beats. -/
def ClocksInStep (s : PulseSoc ticksPerUs) (r : PulseSocRegs) : Prop :=
  ∀ k, InStep s.tick (s.wave (fun _ ↦ r) .beat) (s.wave (fun _ ↦ r) .clk24) 24 k ∧
    InStep s.tick (s.wave (fun _ ↦ r) .beat) (s.wave (fun _ ↦ r) .clk48) 48 k ∧
    InStep s.tick (s.wave (fun _ ↦ r) .beat) (s.wave (fun _ ↦ r) .clk96) 96 k

/-- A clock with the truncated quotient for its period gains the remainder with every beat. -/
theorem in_step_iff_le {s : PulseSoc ticksPerUs} {r : PulseSocRegs} {o : PulseOutput} {T D : ℕ}
    (hrst : r.pulse.rst = false) (hzero : ∀ o : PulseOutput, o.counter s.beatPulse = .zero)
    (hpos : 1 ≤ r.pulse.pulseWidth.toNat) (hshort : r.pulse.pulseWidth.toNat < T / D)
    (hbeat : (PulseOutput.period r.pulse .beat).toNat = T)
    (hclock : (o.period r.pulse).toNat = T / D) (k : ℕ) :
    InStep s.tick (s.wave (fun _ ↦ r) .beat) (s.wave (fun _ ↦ r) o) D k ↔ k * (T % D) ≤ D := by
  have hlong : T / D ≤ T := Nat.div_le_self T D
  have hbeats := rises_for_wave s hrst (hzero .beat) hpos (by omega)
  have hclocks := rises_for_wave s hrst (hzero o) hpos (by omega)
  rw [hbeat] at hbeats
  rw [hclock] at hclocks
  -- After `k` beats the clock is `k` remainders ahead.
  have hgain : k * T = D * k * (T / D) + k * (T % D) := by
    calc k * T = k * (D * (T / D) + T % D) := by rw [Nat.div_add_mod]
      _ = D * k * (T / D) + k * (T % D) := by ring
  unfold InStep
  simp only [hbeats, hclocks]
  constructor
  · rintro ⟨c, d, ⟨-, hc⟩, ⟨-, hd⟩, hle, -⟩
    omega
  · intro hle
    obtain ⟨c, htick, hc⟩ := exists_tick_at s.tick_live (k * T)
    obtain ⟨d, htick', hd⟩ := exists_tick_at s.tick_live (D * k * (T / D))
    exact ⟨c, d, ⟨htick, hc⟩, ⟨htick', hd⟩, by omega, by omega⟩

/-- A remainder that never adds up to more than `D` is zero. -/
theorem remainder_bounded_iff (T D : ℕ) : (∀ k, k * (T % D) ≤ D) ↔ D ∣ T := by
  rw [Nat.dvd_iff_mod_eq_zero]
  constructor
  · intro h
    by_contra hne
    have hge : (D + 1) * 1 ≤ (D + 1) * (T % D) := Nat.mul_le_mul_left _ (by omega)
    have := h (D + 1)
    omega
  · intro h k
    rw [h]
    exact Nat.zero_le D

/-- The clock outputs keep to the beat over any number of beats exactly for the tempos that are
multiples of 96 microseconds. -/
theorem clocks_in_step_iff (s : PulseSoc ticksPerUs)
    (hzero : ∀ o : PulseOutput, o.counter s.beatPulse = .zero) (ghost : GhostRegs) (r : PulseRegs)
    (sFlags : UInt8) (sBeatsPerBar : Int32) (tl : Timeline) (ss : Startstop) (T : ℕ)
    (hT : tl.tempoUsPerBeat.toInt = T) (hlt : T < 2 ^ 32) (hpos : 1 ≤ r.pulseWidth.toNat)
    (hshort : r.pulseWidth.toNat < T / 96) :
    let regs : PulseSocRegs := ⟨ghost, r.released sFlags sBeatsPerBar tl ss⟩
    ClocksInStep s regs ↔ 96 ∣ T := by
  intro regs
  have hT96 : 0 < T := Nat.pos_of_ne_zero fun h ↦ by rw [h] at hshort; omega
  obtain ⟨hbeat, h24, h48, h96⟩ := released_periods r sFlags sBeatsPerBar ss hT hT96 hlt
  have hrst : regs.pulse.rst = false := released_rst r sFlags sBeatsPerBar ss
  have hwidth : regs.pulse.pulseWidth = r.pulseWidth := rfl
  rw [← hwidth] at hpos hshort
  simp only [ClocksInStep, in_step_iff_le hrst hzero hpos (show _ < T / 24 by omega) hbeat h24,
    in_step_iff_le hrst hzero hpos (show _ < T / 48 by omega) hbeat h48,
    in_step_iff_le hrst hzero hpos hshort hbeat h96, forall_and, remainder_bounded_iff]
  omega

theorem clocks_in_step_iff_125_bpm :
    ClocksInStep quietSoc
      ⟨⟨0, 0, 0⟩, PulseRegs.reset.released 0 4 ⟨480000, 0, 0⟩ ⟨0, 0, 0⟩⟩ :=
  (clocks_in_step_iff quietSoc PulseOutput.counter_zero ⟨0, 0, 0⟩ PulseRegs.reset 0 4
    ⟨480000, 0, 0⟩ ⟨0, 0, 0⟩ 480000 rfl (by decide) (by decide) (by decide)).mpr (by decide)

/-- At 120 BPM the 24 PPQN clock is 8 microseconds early on the first beat and 32 on the fourth. -/
theorem clock24_gains_at_120_bpm :
    ¬ ClocksInStep quietSoc ⟨⟨0, 0, 0⟩, PulseRegs.reset.released 0 4 timeline120 ⟨0, 0, 0⟩⟩ := by
  intro h
  have hle := (in_step_iff_le (T := 500000) rfl PulseOutput.counter_zero (by decide) (by decide)
    rfl rfl 4).mp (h 4).1
  exact absurd hle (by decide)

end Drift

section Phase

variable {ticksPerUs : ℕ}

/-- Ghost time in each cycle, the ticks counted on beyond 64 bits. -/
def ghostAt (s : PulseSoc ticksPerUs) (ghost : GhostRegs) (n : ℕ) : ℤ :=
  (s.ghostTime.host.ghostTime ghost).toInt64.toInt + ticks s.tick n

/-- The ghost time of the gateware is `ghostAt`, reduced to 64 bits. -/
theorem ghost_time_eq (s : PulseSoc ticksPerUs) (r : ℕ → PulseSocRegs) (ghost : GhostRegs)
    (hghost : ∀ i, (r i).ghost = ghost) (hctrl : ghost.ctrl &&& 2 = 0) (n : ℕ) :
    ((trace PulseSoc.clk s r n).ghostTime.host.ghostTime ghost).toInt64.toInt =
      (ghostAt s ghost n).bmod (2 ^ 64) := by
  have hsum : (trace PulseSoc.clk s r n).ghostTime.host.ghostTime ghost =
      s.ghostTime.host.ghostTime ghost + UInt64.ofNat (ticks s.tick n) := by
    rw [PulseSoc.trace_ghost_time, show (fun i ↦ (r i).ghost) = fun _ ↦ ghost from funext hghost,
      GhostTimeUnit.trace_host, HostClock.ghostTime, HostClock.trace_host_time hctrl,
      HostClock.ghostTime, UInt64.add_assoc, UInt64.add_assoc, UInt64.add_comm ghost.intercept]
    rfl
  rw [hsum, UInt64.toInt64_add, Int64.toInt_add, ghostAt]
  have hticks : (UInt64.ofNat (ticks s.tick n)).toInt64.toInt =
      ((ticks s.tick n : ℕ) : ℤ).bmod (2 ^ 64) := Int64.toInt_ofNat
  rw [hticks, Int.add_bmod_bmod]

/-- At ghost time `t` the timeline is on a beat. -/
def OnBeat (tl : Timeline) (t : ℚ) : Prop :=
  ∃ m : ℤ, (tl.beatOriginMicrobeats.toInt : ℚ) +
    (t - tl.timeOriginUsGhost.toInt) * 10 ^ 6 / tl.tempoUsPerBeat.toInt = m * 10 ^ 6

/-- Within two microseconds of a beat of the timeline. -/
def NearBeat (tl : Timeline) (g : ℤ) : Prop := ∃ t : ℚ, OnBeat tl t ∧ |(g : ℚ) - t| ≤ 2

/-- A beat later is on a beat again. -/
theorem on_beat_later {tl : Timeline} {T : ℕ} (hT : tl.tempoUsPerBeat.toInt = T) (hpos : 0 < T)
    {t : ℚ} (h : OnBeat tl t) (k : ℤ) : OnBeat tl (t + k * T) := by
  obtain ⟨m, hm⟩ := h
  have hne : (T : ℚ) ≠ 0 := by positivity
  refine ⟨m + k, ?_⟩
  rw [hT] at hm ⊢
  push_cast at hm ⊢
  have hbeats : (t + k * T - tl.timeOriginUsGhost.toInt) * 10 ^ 6 / T =
      (t - tl.timeOriginUsGhost.toInt) * 10 ^ 6 / T + k * 10 ^ 6 := by
    field_simp
    ring
  rw [hbeats, ← add_assoc, hm, add_mul]

theorem near_beat_later {tl : Timeline} {T : ℕ} (hT : tl.tempoUsPerBeat.toInt = T) (hpos : 0 < T)
    {g : ℤ} (h : NearBeat tl g) (k : ℕ) : NearBeat tl (g + k * T) := by
  obtain ⟨t, ht, hle⟩ := h
  refine ⟨t + (k : ℤ) * T, on_beat_later hT hpos ht k, ?_⟩
  push_cast
  rw [add_sub_add_right_eq_sub]
  exact hle

/-- The registers around a load whose soft reset acts for one cycle. -/
def loadOnce (ghost : GhostRegs) (r : PulseRegs) (sFlags : UInt8) (sBeatsPerBar : Int32)
    (tl : Timeline) (ss : Startstop) : ℕ → PulseSocRegs
  | 0 => ⟨ghost, r.load sFlags sBeatsPerBar tl ss⟩
  | _ + 1 => ⟨ghost, r.released sFlags sBeatsPerBar tl ss⟩

variable (s : PulseSoc ticksPerUs) (ghost : GhostRegs) (r : PulseRegs) (sFlags : UInt8)
  (sBeatsPerBar : Int32) (tl : Timeline) (ss : Startstop)

/-- After the cycle of the reset the beat output is that of a zeroed counter. -/
theorem wave_load_once (o : PulseOutput) (n : ℕ) :
    s.wave (loadOnce ghost r sFlags sBeatsPerBar tl ss) o (n + 1) =
      (Periodic.after (o.period (r.released sFlags sBeatsPerBar tl ss)) r.pulseWidth
        (ticks (fun i ↦ s.tick (i + 1)) n)).pulse := by
  have hzero : o.counter (s.clk (loadOnce ghost r sFlags sBeatsPerBar tl ss 0)).beatPulse =
      .zero := by
    rw [PulseSoc.clk, PulseOutput.counter_clk,
      show (loadOnce ghost r sFlags sBeatsPerBar tl ss 0).pulse.rst = true from
        load_rst r sFlags sBeatsPerBar tl ss]
    rfl
  have hrest := (s.clk (loadOnce ghost r sFlags sBeatsPerBar tl ss 0)).wave_eq
    (r := ⟨ghost, r.released sFlags sBeatsPerBar tl ss⟩)
    (released_rst r sFlags sBeatsPerBar ss) hzero n
  rw [PulseSoc.wave, trace_succ']
  exact hrest

/-- After a load every rising edge of the beat output is within two microseconds of a beat of the
timeline exactly when the first one is, which comes with the first tick after the load. -/
theorem beat_phase_iff (hlow : 60060 ≤ tl.tempoUsPerBeat.toInt)
    (hhigh : tl.tempoUsPerBeat.toInt ≤ 3000000) :
    (∀ c, Rises (s.wave (loadOnce ghost r sFlags sBeatsPerBar tl ss) .beat) c →
      NearBeat tl (ghostAt s ghost (c + 1))) ↔
    NearBeat tl (ghostAt s ghost 1 + 1) := by
  obtain ⟨T, hT⟩ : ∃ T : ℕ, tl.tempoUsPerBeat.toInt = T :=
    ⟨tl.tempoUsPerBeat.toInt.toNat, by omega⟩
  have hperiod := (released_periods r sFlags sBeatsPerBar ss hT (by omega) (by omega)).1
  have hP : 0 < (PulseOutput.period (r.released sFlags sBeatsPerBar tl ss) .beat).toNat := by omega
  have hwave := wave_load_once s ghost r sFlags sBeatsPerBar tl ss .beat
  -- From the cycle after the reset on, the output is a zeroed counter's and rises on ticks only.
  have hrises := rises_enabled (w := fun n ↦
      s.wave (loadOnce ghost r sFlags sBeatsPerBar tl ss) .beat (n + 1))
    (v := fun t ↦ (Periodic.after
      (PulseOutput.period (r.released sFlags sBeatsPerBar tl ss) .beat) r.pulseWidth t).pulse)
    hwave
  have hghost : ∀ c, s.tick (c + 1) = true → ghostAt s ghost (c + 1 + 1) =
      ghostAt s ghost 1 + 1 + ticks (fun i ↦ s.tick (i + 1)) c := by
    intro c htick
    rw [ghostAt, ghostAt, ticks_succ_of_tick htick, ticks_add]
    push_cast
    ring
  constructor
  · intro hnear
    have hlive : ∀ n, ∃ m, n ≤ m ∧ s.tick (m + 1) = true := by
      intro n
      obtain ⟨m, hm, htick⟩ := s.tick_live (n + 1)
      exact ⟨m - 1, by omega, by rwa [Nat.sub_add_cancel (by omega)]⟩
    obtain ⟨c, htick, hfirst⟩ := exists_tick_at hlive 0
    have hedge := hnear (c + 1) ((hrises c).mpr ⟨htick, hfirst ▸ Periodic.rises_first⟩)
    rw [hghost c htick, hfirst] at hedge
    exact (add_zero (ghostAt s ghost 1 + 1)) ▸ hedge
  · intro hfirst c hrise
    cases c with
    | zero =>
        -- The reset keeps the output low in its own cycle.
        have hlow := hwave 0
        rw [ticks_zero] at hlow
        exact absurd (hlow.symm.trans hrise.2) Bool.false_ne_true
    | succ c =>
        obtain ⟨htick, hrise⟩ := (hrises c).mp hrise
        obtain ⟨k, hk⟩ := Periodic.dvd_of_rises hP hrise
        rw [hghost c htick, hk, hperiod, Nat.mul_comm]
        push_cast
        exact near_beat_later hT (by omega) hfirst k

theorem beat_phase_iff_loaded_on_beat :
    Rises (quietSoc.wave (loadOnce ⟨0, 0, 0⟩ .reset 0 4 timeline120 ⟨0, 0, 0⟩) .beat) 1 ∧
      NearBeat timeline120 (ghostAt quietSoc ⟨0, 0, 0⟩ 2) := by
  have hedge : Rises (quietSoc.wave
      (loadOnce ⟨0, 0, 0⟩ .reset 0 4 timeline120 ⟨0, 0, 0⟩) .beat) 1 := by decide
  refine ⟨hedge, (beat_phase_iff quietSoc ⟨0, 0, 0⟩ .reset 0 4 timeline120 ⟨0, 0, 0⟩ (by decide)
    (by decide)).mpr ⟨0, ⟨0, ?_⟩, ?_⟩ 1 hedge⟩
  · show ((0 : ℤ) : ℚ) + (0 - (0 : ℤ)) * 10 ^ 6 / (500000 : ℤ) = (0 : ℤ) * 10 ^ 6
    norm_num
  · rw [show ghostAt quietSoc ⟨0, 0, 0⟩ 1 + 1 = 1 by decide]
    norm_num

/-- Loaded a quarter of a second off the beat, the beat output stays there. -/
theorem beat_output_off_phase :
    ¬ ∀ c, Rises (quietSoc.wave (loadOnce ⟨0, 0, 0⟩ .reset 0 4 ⟨500000, 0, 250000⟩ ⟨0, 0, 0⟩)
        .beat) c →
      NearBeat ⟨500000, 0, 250000⟩ (ghostAt quietSoc ⟨0, 0, 0⟩ (c + 1)) := by
  intro h
  obtain ⟨t, ⟨m, hm⟩, hle⟩ := h 1 (by decide)
  rw [show ghostAt quietSoc ⟨0, 0, 0⟩ (1 + 1) = 1 by decide, Int.cast_one, abs_le] at hle
  have ht : t = 250000 + m * 500000 := by
    have hm' : (0 : ℚ) + (t - 250000) * 10 ^ 6 / 500000 = m * 10 ^ 6 := hm
    linarith
  have hlow : (-1 : ℚ) ≤ 250000 + m * 500000 := by linarith [hle.2]
  have hhigh : 250000 + m * 500000 ≤ (3 : ℚ) := by linarith [hle.1]
  norm_cast at hlow hhigh
  omega

end Phase

end LinkFPGA
