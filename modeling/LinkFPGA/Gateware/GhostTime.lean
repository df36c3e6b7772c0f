import LinkFPGA.Library.Clocked

/-!
# The time base (`ghost_time.py`)

`GhostTimeUnit` divides the system clock down to a microsecond tick, counts the ticks in
`host_time` and shows the firmware copies of `host_time` and of `host_time + intercept` that are
one cycle old. The tick generator and the counter are two records, so that the counter can be
studied under any pattern of ticks and not only under those of the generator.
-/

namespace LinkFPGA

/-- The `CSRStorage` registers of `GhostTimeUnit`. -/
structure GhostRegs where
  interLo : UInt32
  interHi : UInt32
  ctrl : UInt8
  deriving DecidableEq, Repr

/-- `Cat(inter_lo, inter_hi)`. -/
def GhostRegs.intercept (r : GhostRegs) : UInt64 :=
  r.interHi.toUInt64 <<< 32 ||| r.interLo.toUInt64

/-- The 1 MHz tick generator. The register `tick_cnt` counts from `0` to `ticks_per_us - 1`. -/
structure TickGen (ticksPerUs : ℕ) where
  tickCnt : Fin ticksPerUs
  tickUs : Bool
  deriving DecidableEq, Repr

/-- A clock edge of the tick generator. -/
def TickGen.clk {ticksPerUs : ℕ} (g : TickGen ticksPerUs) : TickGen ticksPerUs :=
  if h : g.tickCnt.val = ticksPerUs - 1 then
    { tickCnt := ⟨0, by have := g.tickCnt.isLt; omega⟩, tickUs := true }
  else
    { tickCnt := ⟨g.tickCnt.val + 1, by have := g.tickCnt.isLt; omega⟩, tickUs := false }

/-- The microsecond counter and the two words latched for the firmware. -/
structure HostClock where
  hostTime : UInt64
  snapHost : UInt64
  snapGhost : UInt64
  deriving DecidableEq, Repr

namespace HostClock

/-- `ghost_time`, modulo `2 ^ 64`. -/
def ghostTime (r : GhostRegs) (h : HostClock) : UInt64 := h.hostTime + r.intercept

/-- A clock edge of the counter. The soft reset is assigned last, so it wins over the count; the
freeze bit of the control register is read nowhere. -/
def clk (r : GhostRegs) (tickUs : Bool) (h : HostClock) : HostClock where
  hostTime :=
    if r.ctrl &&& 2 ≠ 0 ∧ tickUs = true then 0
    else if tickUs then h.hostTime + 1
    else h.hostTime
  snapHost := h.hostTime
  snapGhost := h.ghostTime r

/-- The status word `HOST_LO`. -/
def hostLo (h : HostClock) : UInt32 := h.snapHost.toUInt32

/-- The status word `HOST_HI`. -/
def hostHi (h : HostClock) : UInt32 := (h.snapHost >>> 32).toUInt32

/-- The status word `GHOST_LO`. -/
def ghostLo (h : HostClock) : UInt32 := h.snapGhost.toUInt32

/-- The status word `GHOST_HI`. -/
def ghostHi (h : HostClock) : UInt32 := (h.snapGhost >>> 32).toUInt32

end HostClock

/-- `GhostTimeUnit`. -/
structure GhostTimeUnit (ticksPerUs : ℕ) where
  gen : TickGen ticksPerUs
  host : HostClock
  deriving DecidableEq, Repr

/-- A clock edge of the unit. -/
def GhostTimeUnit.clk {ticksPerUs : ℕ} (u : GhostTimeUnit ticksPerUs) (r : GhostRegs) :
    GhostTimeUnit ticksPerUs where
  gen := u.gen.clk
  host := u.host.clk r u.gen.tickUs

open Clocked

namespace TickGen

variable {ticksPerUs : ℕ}

/-- The tick wire in each cycle, from a state of the generator on. -/
def wave (g : TickGen ticksPerUs) (n : ℕ) : Bool := (clk^[n] g).tickUs

/-- From every state the generator ticks within the next `ticks_per_us` cycles. -/
theorem exists_tick (g : TickGen ticksPerUs) : ∃ m, 0 < m ∧ g.wave m = true := by
  -- By induction on the distance of the count to its last value.
  obtain ⟨left, hleft⟩ : ∃ left, g.tickCnt.val + left = ticksPerUs - 1 :=
    ⟨ticksPerUs - 1 - g.tickCnt.val, by have := g.tickCnt.isLt; omega⟩
  induction left generalizing g with
  | zero =>
      refine ⟨1, Nat.one_pos, ?_⟩
      show (clk g).tickUs = true
      rw [clk, dif_pos (by omega)]
  | succ left ih =>
      have hnext : (clk g).tickCnt.val = g.tickCnt.val + 1 := by rw [clk, dif_neg (by omega)]
      obtain ⟨m, hpos, htick⟩ := ih (clk g) (by omega)
      exact ⟨m + 1, Nat.succ_pos m, htick⟩

/-- The ticks never stop. -/
theorem wave_live (g : TickGen ticksPerUs) (n : ℕ) : ∃ m, n ≤ m ∧ g.wave m = true := by
  obtain ⟨m, -, htick⟩ := exists_tick (clk^[n] g)
  refine ⟨n + m, Nat.le_add_right n m, ?_⟩
  show (clk^[n + m] g).tickUs = true
  rw [Nat.add_comm, Function.iterate_add_apply]
  exact htick

end TickGen

namespace GhostTimeUnit

variable {ticksPerUs : ℕ}

/-- The generator runs by itself. -/
theorem trace_gen (u : GhostTimeUnit ticksPerUs) (r : ℕ → GhostRegs) (n : ℕ) :
    (trace clk u r n).gen = TickGen.clk^[n] u.gen := by
  induction n with
  | zero => rfl
  | succ n ih => rw [trace_succ, clk, ih, Function.iterate_succ_apply']

/-- The counter of the unit is the counter under the ticks of its generator. -/
theorem trace_host (u : GhostTimeUnit ticksPerUs) (r : GhostRegs) (n : ℕ) :
    (trace clk u (fun _ ↦ r) n).host =
      trace (fun h tick ↦ HostClock.clk r tick h) u.host u.gen.wave n := by
  induction n with
  | zero => rfl
  | succ n ih => rw [trace_succ, trace_succ, clk, ih, trace_gen]; rfl

end GhostTimeUnit

namespace HostClock

/-- With the soft reset clear, `host_time` has gone up by the number of ticks. -/
theorem trace_host_time {r : GhostRegs} (hctrl : r.ctrl &&& 2 = 0) (h : HostClock)
    (tick : ℕ → Bool) (n : ℕ) :
    (trace (fun h tick ↦ clk r tick h) h tick n).hostTime =
      h.hostTime + UInt64.ofNat (ticks tick n) := by
  induction n with
  | zero => simp
  | succ n ih =>
      have hstep : ∀ s : HostClock, (s.clk r (tick n)).hostTime =
          if tick n = true then s.hostTime + 1 else s.hostTime := by
        intro s
        simp [clk, hctrl]
      rw [trace_succ, hstep, ih]
      cases htick : tick n with
      | true =>
          rw [ticks_succ_of_tick htick, if_pos rfl, UInt64.ofNat_add, UInt64.add_assoc]
          rfl
      | false => rw [ticks_succ_of_idle htick, if_neg (by simp)]

/-- The status words show the counter of the cycle before. -/
theorem trace_snap_host (r : GhostRegs) (h : HostClock) (tick : ℕ → Bool) (n : ℕ) :
    (trace (fun h tick ↦ clk r tick h) h tick (n + 1)).snapHost =
      (trace (fun h tick ↦ clk r tick h) h tick n).hostTime := rfl

theorem trace_snap_ghost (r : GhostRegs) (h : HostClock) (tick : ℕ → Bool) (n : ℕ) :
    (trace (fun h tick ↦ clk r tick h) h tick (n + 1)).snapGhost =
      (trace (fun h tick ↦ clk r tick h) h tick n).ghostTime r := rfl

end HostClock

end LinkFPGA
