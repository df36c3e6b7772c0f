import LinkFPGA.Firmware.Types

/-!
# Programming the pulse generator (`beat_pulse.c`)

Each function is modelled by the CSR writes it issues, in program order. `PulseRegs` is the bank
of `CSRStorage` registers of `BeatPulseGen` as the firmware sees it: a register keeps the last
value written to it.
-/

namespace LinkFPGA

/-- A write to one of the registers of `BeatPulseGen`. -/
inductive PulseWrite where
  | period24ppqn (v : UInt32)
  | period48ppqn (v : UInt32)
  | period96ppqn (v : UInt32)
  | periodBeat (v : UInt32)
  | periodBar (v : UInt32)
  | pulseWidth (v : UInt16)
  | flags (v : UInt8)
  | softReset (v : UInt8)
  deriving DecidableEq, Repr

/-- The registers of `BeatPulseGen`. -/
structure PulseRegs where
  period24ppqn : UInt32
  period48ppqn : UInt32
  period96ppqn : UInt32
  periodBeat : UInt32
  periodBar : UInt32
  pulseWidth : UInt16
  flags : UInt8
  softReset : UInt8
  deriving DecidableEq, Repr

namespace PulseRegs

/-- The reset values of the registers. -/
def reset : PulseRegs where
  period24ppqn := 20833
  period48ppqn := 10417
  period96ppqn := 5208
  periodBeat := 500000
  periodBar := 2000000
  pulseWidth := 1000
  flags := 0
  softReset := 0

/-- The bank after one write. -/
def write (r : PulseRegs) : PulseWrite → PulseRegs
  | .period24ppqn v => { r with period24ppqn := v }
  | .period48ppqn v => { r with period48ppqn := v }
  | .period96ppqn v => { r with period96ppqn := v }
  | .periodBeat v => { r with periodBeat := v }
  | .periodBar v => { r with periodBar := v }
  | .pulseWidth v => { r with pulseWidth := v }
  | .flags v => { r with flags := v }
  | .softReset v => { r with softReset := v }

/-- The bank after writes in program order. -/
def writes (r : PulseRegs) (ws : List PulseWrite) : PulseRegs := ws.foldl write r

end PulseRegs

/-- Flag bits set in the `s_flags` mirror. -/
def setFlag (flags bit : UInt8) (on : Bool) : UInt8 :=
  if on then flags ||| bit else flags &&& ~~~bit

/-- The tempo `beat_pulse_load_timeline` works with: 120 BPM stands in for a tempo that is not
positive. -/
def loadedUsPerBeat (tl : Timeline) : Int64 :=
  if tl.tempoUsPerBeat ≤ 0 then 500000 else tl.tempoUsPerBeat

/-- `(uint32_t)` of a signed 64-bit value. -/
def toU32 (v : Int64) : UInt32 := v.toUInt64.toUInt32

/-- The value `s_flags` takes in `beat_pulse_load_timeline`. -/
def loadFlags (sFlags : UInt8) (ss : Startstop) : UInt8 :=
  setFlag sFlags 0x01 (decide (ss.isPlaying ≠ 0))

/-- The register writes of `beat_pulse_load_timeline`. -/
def beatPulseLoadTimeline (sFlags : UInt8) (sBeatsPerBar : Int32) (tl : Timeline)
    (ss : Startstop) : List PulseWrite :=
  let usPerBeat := loadedUsPerBeat tl
  [.periodBeat (toU32 usPerBeat),
   .period24ppqn (toU32 (usPerBeat / 24)),
   .period48ppqn (toU32 (usPerBeat / 48)),
   .period96ppqn (toU32 (usPerBeat / 96)),
   .periodBar (toU32 (usPerBeat * sBeatsPerBar.toInt64)),
   .softReset 0x01,
   .flags (loadFlags sFlags ss)]

end LinkFPGA
