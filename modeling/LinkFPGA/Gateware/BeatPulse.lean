import LinkFPGA.Firmware.BeatPulse
import LinkFPGA.Gateware.GhostTime

/-!
# The pulse generator (`beat_pulse.py`)

`BeatPulseGen` has five periodic outputs, each a down-counter that reloads from its period
register and starts a one-shot of `pulse_width` ticks, one-shots on the two edges of the run flag,
and a one-pulse-per-second output. `PulseSoc` is the generator wired to the time base that ticks
it, as `soc.py` connects them.
-/

namespace LinkFPGA

open Clocked

/-- A pulse and the ticks it has left. -/
structure OneShot where
  pulse : Bool
  width : UInt16
  deriving DecidableEq, Repr

namespace OneShot

/-- Start a pulse of `pulse_width` ticks. -/
def fire (pulseWidth : UInt16) : OneShot := { pulse := true, width := pulseWidth }

/-- A tick without a new pulse. The pulse ends when the width goes from one to zero, so a pulse of
width zero has no end. -/
def elapse (s : OneShot) : OneShot :=
  if s.width ≠ 0 then
    { pulse := if s.width = 1 then false else s.pulse, width := s.width - 1 }
  else s

end OneShot

/-- The registers of one `make_periodic` output. -/
structure Periodic extends OneShot where
  cnt : UInt32
  deriving DecidableEq, Repr

namespace Periodic

/-- The registers after a reset. -/
def zero : Periodic := { pulse := false, width := 0, cnt := 0 }

/-- A clock edge of `make_periodic`. -/
def clk (rst tick : Bool) (period : UInt32) (pulseWidth : UInt16) (s : Periodic) : Periodic :=
  if rst then zero
  else if tick then
    if s.cnt = 0 then { OneShot.fire pulseWidth with cnt := period - 1 }
    else { s.toOneShot.elapse with cnt := s.cnt - 1 }
  else s

end Periodic

/-- The registers of `BeatPulseGen` behind its CSRs. -/
structure BeatPulseGen where
  clk24 : Periodic
  clk48 : Periodic
  clk96 : Periodic
  beat : Periodic
  bar : Periodic
  runPrev : Bool
  start : OneShot
  stop : OneShot
  ppsCnt : BitVec 20
  pps : OneShot
  deriving DecidableEq, Repr

/-- `rst`, the low bit of `soft_reset`. -/
def PulseRegs.rst (r : PulseRegs) : Bool := r.softReset &&& 1 = 1

/-- `run`, the low bit of `flags`. -/
def PulseRegs.run (r : PulseRegs) : Bool := r.flags &&& 1 = 1

namespace BeatPulseGen

/-- A clock edge of the generator. -/
def clk (r : PulseRegs) (tick : Bool) (s : BeatPulseGen) : BeatPulseGen where
  clk24 := s.clk24.clk r.rst tick r.period24ppqn r.pulseWidth
  clk48 := s.clk48.clk r.rst tick r.period48ppqn r.pulseWidth
  clk96 := s.clk96.clk r.rst tick r.period96ppqn r.pulseWidth
  beat := s.beat.clk r.rst tick r.periodBeat r.pulseWidth
  bar := s.bar.clk r.rst tick r.periodBar r.pulseWidth
  runPrev := r.run
  start :=
    if r.run ∧ ¬ s.runPrev then .fire r.pulseWidth
    else if tick then s.start.elapse
    else s.start
  stop :=
    if ¬ r.run ∧ s.runPrev then .fire r.pulseWidth
    else if tick then s.stop.elapse
    else s.stop
  ppsCnt :=
    if tick then if s.ppsCnt = 999999 then 0 else s.ppsCnt + 1
    else s.ppsCnt
  pps :=
    if tick then if s.ppsCnt = 999999 then .fire r.pulseWidth else s.pps.elapse
    else s.pps

/-- The state in which every register is zero. -/
def zero : BeatPulseGen where
  clk24 := .zero
  clk48 := .zero
  clk96 := .zero
  beat := .zero
  bar := .zero
  runPrev := false
  start := ⟨false, 0⟩
  stop := ⟨false, 0⟩
  ppsCnt := 0
  pps := ⟨false, 0⟩

end BeatPulseGen

/-- The periodic outputs. -/
inductive PulseOutput where
  | clk24
  | clk48
  | clk96
  | beat
  | bar
  deriving DecidableEq, Repr

namespace PulseOutput

/-- The period register of an output. -/
def period (r : PulseRegs) : PulseOutput → UInt32
  | clk24 => r.period24ppqn
  | clk48 => r.period48ppqn
  | clk96 => r.period96ppqn
  | beat => r.periodBeat
  | bar => r.periodBar

/-- The counter of an output. -/
def counter (s : BeatPulseGen) : PulseOutput → Periodic
  | clk24 => s.clk24
  | clk48 => s.clk48
  | clk96 => s.clk96
  | beat => s.beat
  | bar => s.bar

/-- The five outputs are clocked alike, each with its own period. -/
theorem counter_clk (r : PulseRegs) (tick : Bool) (s : BeatPulseGen) (o : PulseOutput) :
    o.counter (s.clk r tick) = (o.counter s).clk r.rst tick (o.period r) r.pulseWidth := by
  cases o <;> rfl

@[simp] theorem counter_zero (o : PulseOutput) : o.counter .zero = .zero := by cases o <;> rfl

end PulseOutput

/-- The time base and the pulse generator it ticks. -/
structure PulseSoc (ticksPerUs : ℕ) where
  ghostTime : GhostTimeUnit ticksPerUs
  beatPulse : BeatPulseGen
  deriving DecidableEq, Repr

/-- The registers of both. -/
structure PulseSocRegs where
  ghost : GhostRegs
  pulse : PulseRegs
  deriving DecidableEq, Repr

namespace PulseSoc

variable {ticksPerUs : ℕ}

/-- A clock edge of both. -/
def clk (s : PulseSoc ticksPerUs) (r : PulseSocRegs) : PulseSoc ticksPerUs where
  ghostTime := s.ghostTime.clk r.ghost
  beatPulse := s.beatPulse.clk r.pulse s.ghostTime.gen.tickUs

/-- The level of a periodic output in each cycle. -/
def wave (s : PulseSoc ticksPerUs) (r : ℕ → PulseSocRegs) (o : PulseOutput) (n : ℕ) : Bool :=
  (o.counter (trace clk s r n).beatPulse).pulse

/-- The microsecond tick in each cycle. -/
def tick (s : PulseSoc ticksPerUs) (n : ℕ) : Bool := s.ghostTime.gen.wave n

end PulseSoc

end LinkFPGA
