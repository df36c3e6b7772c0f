import Mathlib.Tactic.IntervalCases
import LinkFPGA.Firmware.GhostTime

/-!
# Whether a 64-bit time read in two words is a time

The status words of `GhostTimeUnit` follow the counter in every cycle, so the two words of one
reading come from two values of it. `Counts` is a 64-bit counter seen through the ticks that
drive it; both `host_time` and `ghost_time` are one. `held_iff_coherent` says for such a counter
when the value put together is one it had during the call, and `coherent_reads_ordered` what
follows for a series of calls.
-/

namespace LinkFPGA

open Clocked

/-- `value` starts at `origin` and goes up by one with every tick, modulo `2 ^ 64`. -/
def Counts (value : ℕ → UInt64) (origin : ℕ) (tick : ℕ → Bool) : Prop :=
  ∀ i, (value i).toNat = (origin + ticks tick i) % 2 ^ 64

/-- The counter had the value in some cycle of the call. -/
def Held (value : ℕ → UInt64) (c : TimeCall) (x : UInt64) : Prop :=
  ∃ i, c.start ≤ i ∧ i ≤ c.stop ∧ value i = x

/-- What a call returns that reads the low word of one cycle and the high word of another, each
of them one cycle late. -/
def assembled (value : ℕ → UInt64) (c : TimeCall) : UInt64 :=
  joinWords (value (c.hi - 1) >>> 32).toUInt32 (value (c.lo - 1)).toUInt32

/-- How often the low word of the counter overflows between the two words a call reads, modulo
`2 ^ 32`. -/
def lowCarries (origin : ℕ) (tick : ℕ → Bool) (c : TimeCall) : ℕ :=
  ((origin + ticks tick (c.hi - 1)) / 2 ^ 32 - (origin + ticks tick (c.lo - 1)) / 2 ^ 32) % 2 ^ 32

/-- The low word does not overflow between the two words read. Otherwise each overflow has to be
made up for by another `2 ^ 32` ticks, before the call returns or, once around the whole counter,
after it was entered. -/
def Coherent (origin : ℕ) (tick : ℕ → Bool) (c : TimeCall) : Prop :=
  lowCarries origin tick c = 0 ∨
  ticks tick (c.lo - 1) + lowCarries origin tick c * 2 ^ 32 ≤ ticks tick c.stop ∨
  ticks tick c.start + 2 ^ 64 ≤ ticks tick (c.lo - 1) + lowCarries origin tick c * 2 ^ 32

section Counter

variable {value : ℕ → UInt64} {origin : ℕ} {tick : ℕ → Bool}

/-- The value put together is that of the low word's cycle, `2 ^ 32` too much for each overflow
of the low word. -/
theorem assembled_toNat (hcount : Counts value origin tick) (c : TimeCall) :
    (assembled value c).toNat =
      (origin + ticks tick (c.lo - 1) + lowCarries origin tick c * 2 ^ 32) % 2 ^ 64 := by
  have hle : ticks tick (c.lo - 1) ≤ ticks tick (c.hi - 1) :=
    ticks_mono tick (by have := c.lo_lt_hi; omega)
  rw [assembled, join_words_toNat, hcount, hcount, lowCarries]
  generalize ticks tick (c.lo - 1) = a at hle ⊢
  generalize ticks tick (c.hi - 1) = b at hle ⊢
  omega

/-- The value put together is one the counter had during the call exactly when the two words fit
together. -/
theorem held_iff_coherent (hcount : Counts value origin tick) (c : TimeCall) :
    Held value c (assembled value c) ↔ Coherent origin tick c := by
  have hvalue := assembled_toNat hcount c
  have hd : lowCarries origin tick c < 2 ^ 32 := Nat.mod_lt _ (by decide)
  have hstart : ticks tick c.start ≤ ticks tick (c.lo - 1) :=
    ticks_mono tick (by have := c.start_lt_lo; omega)
  have hstop : ticks tick (c.lo - 1) ≤ ticks tick c.stop :=
    ticks_mono tick (by have := c.lo_lt_hi; have := c.hi_le_stop; omega)
  have hcall : c.start ≤ c.stop := by
    have := c.start_lt_lo
    have := c.lo_lt_hi
    have := c.hi_le_stop
    omega
  unfold Held Coherent
  constructor
  · rintro ⟨i, hi, hi', hx⟩
    have hat := hcount i
    rw [hx, hvalue] at hat
    have hlow := ticks_mono tick hi
    have hhigh := ticks_mono tick hi'
    -- Two counts less than a whole turn of the counter apart that show the same value are equal.
    by_contra hnot
    omega
  · intro hcoherent
    have hexists : ∃ v, ticks tick c.start ≤ v ∧ v ≤ ticks tick c.stop ∧
        (origin + v) % 2 ^ 64 = (assembled value c).toNat := by
      rw [hvalue]
      rcases hcoherent with hzero | hlater | hearlier
      · exact ⟨ticks tick (c.lo - 1), hstart, hstop, by rw [hzero, Nat.zero_mul, Nat.add_zero]⟩
      · exact ⟨ticks tick (c.lo - 1) + lowCarries origin tick c * 2 ^ 32, by omega, hlater,
          by rw [Nat.add_assoc]⟩
      · exact ⟨ticks tick (c.lo - 1) + lowCarries origin tick c * 2 ^ 32 - 2 ^ 64, by omega,
          by omega, by omega⟩
    obtain ⟨v, hlow, hhigh, hv⟩ := hexists
    obtain ⟨i, hi, hi', hticks⟩ := exists_ticks_eq tick hcall hlow hhigh
    refine ⟨i, hi, hi', UInt64.toNat_inj.mp ?_⟩
    rw [hcount i, hticks, hv]

/-- Coherent calls made one after the other, before the counter turns over, return values that
never decrease and never run ahead of the counter. -/
theorem coherent_reads_ordered (hcount : Counts value origin tick) {cs : List TimeCall}
    (horder : cs.Pairwise fun c d ↦ c.stop ≤ d.start)
    (hcs : ∀ c ∈ cs, Coherent origin tick c ∧ origin + ticks tick c.stop < 2 ^ 64) :
    (cs.map (assembled value)).Pairwise (· ≤ ·) ∧
      ∀ c ∈ cs, assembled value c ≤ value c.stop := by
  have hbetween : ∀ i j stop, i ≤ j → j ≤ stop → origin + ticks tick stop < 2 ^ 64 →
      value i ≤ value j := by
    intro i j stop hij hj hlast
    have hi' := ticks_mono tick hij
    have hj' := ticks_mono tick hj
    rw [UInt64.le_iff_toNat_le, hcount, hcount, Nat.mod_eq_of_lt (by omega),
      Nat.mod_eq_of_lt (by omega)]
    omega
  have hheld : ∀ c ∈ cs, Held value c (assembled value c) := fun c hc ↦
    (held_iff_coherent hcount c).mpr (hcs c hc).1
  constructor
  · rw [List.pairwise_map]
    refine List.Pairwise.imp_of_mem (fun {c d} hc hd hcd ↦ ?_) horder
    obtain ⟨i, -, hi, hx⟩ := hheld c hc
    obtain ⟨j, hj, hj', hy⟩ := hheld d hd
    rw [← hx, ← hy]
    exact hbetween i j d.stop (by omega) hj' (hcs d hd).2
  · intro c hc
    obtain ⟨i, -, hi, hx⟩ := hheld c hc
    rw [← hx]
    exact hbetween i c.stop c.stop hi le_rfl (hcs c hc).2

end Counter

section Unit

variable {r : GhostRegs} (hctrl : r.ctrl &&& 2 = 0) (h : HostClock) (tick : ℕ → Bool)
include hctrl

theorem host_time_counts :
    Counts (fun i ↦ (trace (fun h tick ↦ HostClock.clk r tick h) h tick i).hostTime)
      h.hostTime.toNat tick := by
  intro i
  show (trace (fun h tick ↦ HostClock.clk r tick h) h tick i).hostTime.toNat = _
  rw [HostClock.trace_host_time hctrl, UInt64.toNat_add, UInt64.toNat_ofNat', Nat.add_mod_mod]

theorem ghost_time_counts :
    Counts (fun i ↦ (trace (fun h tick ↦ HostClock.clk r tick h) h tick i).ghostTime r)
      (h.ghostTime r).toNat tick := by
  intro i
  show ((trace (fun h tick ↦ HostClock.clk r tick h) h tick i).ghostTime r).toNat = _
  rw [HostClock.ghostTime, HostClock.trace_host_time hctrl, HostClock.ghostTime, UInt64.toNat_add,
    UInt64.toNat_add, UInt64.toNat_add, UInt64.toNat_ofNat']
  omega

end Unit

section Calls

/-- A call that reads one cycle late reads the two words of `assembled`. -/
theorem host_time_us_eq (r : GhostRegs) (h : HostClock) (tick : ℕ → Bool) (c : TimeCall) :
    hostTimeUs (trace (fun h tick ↦ HostClock.clk r tick h) h tick) c =
      assembled (fun i ↦ (trace (fun h tick ↦ HostClock.clk r tick h) h tick i).hostTime) c := by
  obtain ⟨lo, hlo⟩ : ∃ lo, c.lo = lo + 1 := ⟨c.lo - 1, by have := c.start_lt_lo; omega⟩
  obtain ⟨hi, hhi⟩ : ∃ hi, c.hi = hi + 1 := ⟨c.hi - 1, by have := c.lo_lt_hi; omega⟩
  simp only [hostTimeUs, HostClock.hostLo, HostClock.hostHi, assembled, hlo, hhi,
    HostClock.trace_snap_host, Nat.add_sub_cancel]

theorem ghost_time_us_eq (r : GhostRegs) (h : HostClock) (tick : ℕ → Bool) (c : TimeCall) :
    ghostTimeUs (trace (fun h tick ↦ HostClock.clk r tick h) h tick) c =
      assembled (fun i ↦ (trace (fun h tick ↦ HostClock.clk r tick h) h tick i).ghostTime r) c := by
  obtain ⟨lo, hlo⟩ : ∃ lo, c.lo = lo + 1 := ⟨c.lo - 1, by have := c.start_lt_lo; omega⟩
  obtain ⟨hi, hhi⟩ : ∃ hi, c.hi = hi + 1 := ⟨c.hi - 1, by have := c.lo_lt_hi; omega⟩
  simp only [ghostTimeUs, HostClock.ghostLo, HostClock.ghostHi, assembled, hlo, hhi,
    HostClock.trace_snap_ghost, Nat.add_sub_cancel]

/-- Under every pattern of ticks, `host_time_us()` returns a value `host_time` had during the call
exactly when the low word does not overflow between the two reads (or the call goes on until the
counter has caught up); the same for `ghost_time_us()`. Calls of which this holds, made before the
counter turns over, never go back and never run ahead. -/
theorem time_reads_whole_iff (r : GhostRegs) (hctrl : r.ctrl &&& 2 = 0) (h : HostClock)
    (tick : ℕ → Bool) :
    let unit := trace (fun h tick ↦ HostClock.clk r tick h) h tick
    (∀ c, Held (fun i ↦ (unit i).hostTime) c (hostTimeUs unit c) ↔
      Coherent h.hostTime.toNat tick c) ∧
    (∀ c, Held (fun i ↦ (unit i).ghostTime r) c (ghostTimeUs unit c) ↔
      Coherent (h.ghostTime r).toNat tick c) ∧
    ∀ cs : List TimeCall, cs.Pairwise (fun c d ↦ c.stop ≤ d.start) →
      (∀ c ∈ cs, Coherent h.hostTime.toNat tick c ∧
        h.hostTime.toNat + ticks tick c.stop < 2 ^ 64) →
      (cs.map (hostTimeUs unit)).Pairwise (· ≤ ·) ∧
        ∀ c ∈ cs, hostTimeUs unit c ≤ (unit c.stop).hostTime := by
  intro unit
  refine ⟨fun c ↦ ?_, fun c ↦ ?_, fun cs horder hcs ↦ ?_⟩
  · rw [host_time_us_eq]
    exact held_iff_coherent (host_time_counts hctrl h tick) c
  · rw [ghost_time_us_eq]
    exact held_iff_coherent (ghost_time_counts hctrl h tick) c
  · have hordered := coherent_reads_ordered (host_time_counts hctrl h tick) horder hcs
    rw [show hostTimeUs unit = _ from funext (host_time_us_eq r h tick)]
    exact hordered

/-- The registers after power-on, an intercept of zero. -/
def bootRegs : GhostRegs := ⟨0, 0, 0⟩

/-- A call that takes four cycles. -/
def shortCall : TimeCall := ⟨0, 2, 3, 4, by decide, by decide, by decide⟩

theorem time_reads_whole_iff_quiet :
    Held (fun i ↦ (trace (fun h tick ↦ HostClock.clk bootRegs tick h) ⟨7, 7, 7⟩
        (fun _ ↦ false) i).hostTime) shortCall
      (hostTimeUs (trace (fun h tick ↦ HostClock.clk bootRegs tick h) ⟨7, 7, 7⟩
        (fun _ ↦ false)) shortCall) :=
  ((time_reads_whole_iff bootRegs (by decide) ⟨7, 7, 7⟩ (fun _ ↦ false)).1 shortCall).mpr
    (.inl (by decide))

/-- The microsecond ends between the two snapshots and carries into the high word: the call
returns a time 71 minutes ahead of the counter. -/
theorem carry_tears_reading :
    ¬ Held (fun i ↦ (trace (fun h tick ↦ HostClock.clk bootRegs tick h)
        ⟨0xFFFFFFFF, 0xFFFFFFFF, 0xFFFFFFFF⟩ (· == 1) i).hostTime) shortCall
      (hostTimeUs (trace (fun h tick ↦ HostClock.clk bootRegs tick h)
        ⟨0xFFFFFFFF, 0xFFFFFFFF, 0xFFFFFFFF⟩ (· == 1)) shortCall) ∧
    (trace (fun h tick ↦ HostClock.clk bootRegs tick h)
        ⟨0xFFFFFFFF, 0xFFFFFFFF, 0xFFFFFFFF⟩ (· == 1) shortCall.stop).hostTime = 0x100000000 ∧
    hostTimeUs (trace (fun h tick ↦ HostClock.clk bootRegs tick h)
        ⟨0xFFFFFFFF, 0xFFFFFFFF, 0xFFFFFFFF⟩ (· == 1)) shortCall = 0x1FFFFFFFF := by
  refine ⟨?_, by decide, by decide⟩
  rintro ⟨i, -, hi, hx⟩
  have hle : i ≤ 4 := hi
  interval_cases i <;> revert hx <;> decide

end Calls

end LinkFPGA
