import LinkFPGA.Firmware.Main

/-!
# The external sync sources (`midi.c`, `eurorack.c`)

`midi_tick` and `euro_tick` read what the hardware has measured of the MIDI input and of the
Eurorack jacks, and act on it as the sync mode of each source asks for. A tick is modelled on the
registers it reads; the floating-point expression for the BPM is given by its value.
-/

namespace LinkFPGA

/-- `midi_sync_mode_t` and `euro_sync_mode_t`. -/
inductive SyncMode where
  | off
  | observe
  | follower
  deriving DecidableEq, Repr

/-- The statics of `midi.c`. -/
structure MidiState where
  syncMode : SyncMode
  observedBpm : Rat
  observedPeriodUs : UInt32
  lastClockTs : UInt64
  deriving DecidableEq, Repr

/-- The statics of `eurorack.c`. -/
structure EuroState where
  mode : SyncMode
  ppqn : UInt8
  bpm : Rat
  period : UInt32
  lastClkCount : UInt32
  lastRstCount : UInt32
  lastRunCount : UInt32
  runLevel : Bool
  deriving DecidableEq, Repr

/-- The firmware with its sync sources. -/
structure SyncWorld where
  core : World
  midi : MidiState
  euro : EuroState

/-- What `midi_init` and `euro_init` leave, for the counts and the level the jacks show. -/
def syncInit (core : World) (clkCount rstCount runCount status : UInt32) : SyncWorld where
  core := core
  midi := ⟨.observe, 0, 0, 0⟩
  euro := ⟨.observe, 4, 0, 0, clkCount, rstCount, runCount, decide (status &&& 1 ≠ 0)⟩

/-! ## MIDI -/

def midiRtClock : UInt8 := 0xF8
def midiRtStart : UInt8 := 0xFA
def midiRtContinue : UInt8 := 0xFB
def midiRtStop : UInt8 := 0xFC

/-- The registers of `MidiCore` that `midi_tick` reads. -/
structure MidiInputs where
  clkPeriod : UInt32
  rtEvValid : Bool
  rtEvByte : UInt8
  rtEvTsLo : UInt32
  rtEvTsHi : UInt32
  /-- `60000000.0 / ((double)period * 24.0)`. -/
  bpm : Rat

/-- The live BPM of `midi_tick`. -/
def midiMeasure (i : MidiInputs) (m : MidiState) : MidiState :=
  if 0 < i.clkPeriod ∧ i.clkPeriod ≠ m.observedPeriodUs then
    { m with
      observedPeriodUs := i.clkPeriod
      observedBpm := i.bpm }
  else m

/-- The `switch` of `midi_tick`. -/
def midiRtEvent (byte : UInt8) (ts : UInt64) (s : SyncWorld) : SyncWorld :=
  if byte = midiRtClock then
    let s := { s with midi := { s.midi with lastClockTs := ts } }
    if s.midi.syncMode = .follower ∧ 0 < s.midi.observedBpm then
      { s with core := linkSetLocalTempo s.midi.observedBpm s.core }
    else s
  -- not for followers alone, as the clock and the Eurorack jacks are
  else if byte = midiRtStart ∨ byte = midiRtContinue then
    if s.midi.syncMode ≠ .off then { s with core := linkSetPlay true s.core } else s
  else if byte = midiRtStop then
    if s.midi.syncMode ≠ .off then { s with core := linkSetPlay false s.core } else s
  else s

/-- `midi_tick`. -/
def midiTick (i : MidiInputs) (s : SyncWorld) : SyncWorld :=
  let s := { s with midi := midiMeasure i s.midi }
  if !i.rtEvValid then s
  else midiRtEvent i.rtEvByte (i.rtEvTsHi.toUInt64 <<< 32 ||| i.rtEvTsLo.toUInt64) s

/-! ## Eurorack -/

/-- The registers of `EurorackInput` that `euro_tick` reads. -/
structure EuroInputs where
  clkCount : UInt32
  rstCount : UInt32
  runCount : UInt32
  clkPeriod : UInt32
  status : UInt32
  /-- `60000000.0 / ((double)period * (double)s_ppqn)`. -/
  bpm : Rat

/-- The live BPM of `euro_tick`. -/
def euroMeasure (i : EuroInputs) (e : EuroState) : EuroState :=
  if 0 < i.clkPeriod ∧ i.clkPeriod ≠ e.period then
    { e with
      period := i.clkPeriod
      bpm := i.bpm }
  else e

/-- The clock edges of `euro_tick`. -/
def euroClock (i : EuroInputs) (s : SyncWorld) : SyncWorld :=
  if i.clkCount ≠ s.euro.lastClkCount then
    let s := { s with euro := { s.euro with lastClkCount := i.clkCount } }
    if s.euro.mode = .follower ∧ 0 < s.euro.bpm then
      { s with core := linkSetLocalTempo s.euro.bpm s.core }
    else s
  else s

/-- The reset edges of `euro_tick`. -/
def euroReset (i : EuroInputs) (s : SyncWorld) : SyncWorld :=
  if i.rstCount ≠ s.euro.lastRstCount then
    let s := { s with euro := { s.euro with lastRstCount := i.rstCount } }
    if s.euro.mode = .follower then { s with core := snapBeatOrigin s.core } else s
  else s

/-- The run level of `euro_tick`. -/
def euroRun (i : EuroInputs) (s : SyncWorld) : SyncWorld :=
  let runLevel := decide (i.status &&& 1 ≠ 0)
  if i.runCount ≠ s.euro.lastRunCount ∨ runLevel ≠ s.euro.runLevel then
    let s := { s with euro := { s.euro with lastRunCount := i.runCount, runLevel := runLevel } }
    if s.euro.mode = .follower then { s with core := linkSetPlay runLevel s.core } else s
  else s

/-- `euro_tick`. -/
def euroTick (i : EuroInputs) (s : SyncWorld) : SyncWorld :=
  euroRun i (euroReset i (euroClock i { s with euro := euroMeasure i s.euro }))

/-! ## Configuration of the jacks -/

/-- `euro_set_ppqn`. -/
def euroSetPpqn (ppqn : UInt8) (s : SyncWorld) : SyncWorld :=
  { s with euro := { s.euro with ppqn := if ppqn = 0 then 1 else ppqn } }

/-- `euro_set_sync_mode`. -/
def euroSetSyncMode (m : SyncMode) (s : SyncWorld) : SyncWorld :=
  { s with euro := { s.euro with mode := m } }

/-- `60000000.0 / ((double)period * (double)s_ppqn)` in exact arithmetic. -/
def euroBpm (period : UInt32) (ppqn : UInt8) : Rat :=
  60000000 / ((period.toNat : Rat) * ppqn.toNat)

/-- The registers with the value of the expression for the BPM at a PPQN. -/
def EuroInputs.atPpqn (i : EuroInputs) (ppqn : UInt8) : EuroInputs :=
  { i with bpm := euroBpm i.clkPeriod ppqn }

/-! ## Runs -/

/-- What can happen next. -/
inductive SyncEvent where
  | midiTick (i : MidiInputs)
  | euroTick (i : EuroInputs)
  /-- Another handler of the main loop. -/
  | core (e : Event)

def syncStep (s : SyncWorld) : SyncEvent → SyncWorld
  | .midiTick i => midiTick i s
  | .euroTick i => euroTick i s
  | .core e => { s with core := step s.core e }

/-- What can happen next while the jacks are configured. -/
inductive EuroCall where
  | setPpqn (ppqn : UInt8)
  | setSyncMode (m : SyncMode)
  | tick (i : EuroInputs)
  /-- `midi_tick`, which leaves `eurorack.c` alone. -/
  | midiTick (i : MidiInputs)
  /-- Another handler of the main loop. -/
  | core (e : Event)

/-- One call; `euro_tick` evaluates the expression for the BPM at the PPQN it finds. -/
def euroStep (s : SyncWorld) : EuroCall → SyncWorld
  | .setPpqn ppqn => euroSetPpqn ppqn s
  | .setSyncMode m => euroSetSyncMode m s
  | .tick i => euroTick (i.atPpqn s.euro.ppqn) s
  | .midiTick i => midiTick i s
  | .core e => { s with core := step s.core e }

end LinkFPGA
